import Registrar.Proofs.FilterPatching

/-!
# Filters files as documents

A filters file is a row of elements for items with other text between them (`Document`). Lines are
put into it in front of the line on which an item group or the project closes. Where no such line
starts within an element (`Document.Ready`), they stand between two elements (`insert_text`), and no
element is changed by them.
-/

namespace Registrar.ProjectFile

open Text ProjectItem

variable {keys keys' : List (ItemKind × Text)} {nl : Text}

/-! ## Elements -/

/-- Keys of items are compared by both of their parts. -/
instance : LawfulBEq (ItemKind × Text) := inferInstance

instance decidableInfix (part t : Text) : Decidable (part <:+: t) :=
  List.instDecidableIsInfixOfDecidableEq part t

/-- An element for an item. -/
structure Element where
  kind : ItemKind
  /-- The opening tag behind the name. -/
  tag : Text
  /-- The children and the white space in the closing tag, unless the element closes itself. -/
  body : Option (Text × Text)
deriving DecidableEq, Repr

namespace Element

variable {e : Element}

/-- The opening tag without its end. -/
def start (e : Element) : Text :=
  '<' :: (e.kind.element ++ e.tag)

/-- The end of the opening tag and all that follows. -/
def finish (e : Element) : Text :=
  match e.body with
  | none => "/>"
  | some (children, blanks) => '>' :: (children ++ ("</" ++ e.kind.element ++ blanks ++ ">"))

def text (e : Element) : Text :=
  e.start ++ e.finish

/-- The item, where the opening tag starts with its path. -/
def item? (e : Element) : Option ProjectItem :=
  (takeItem? e.start).map Prod.fst

/-- The opening tag behind the path. -/
def attributes (e : Element) : Text :=
  ((takeItem? e.start).map Prod.snd).getD []

/-- The element is for an item with one of the keys. -/
def Asked (keys : List (ItemKind × Text)) (e : Element) : Prop :=
  e.item?.any (fun i => i.key ∈ keys) = true

/-- The element has more than one line, or may get it. -/
def Spans (keys : List (ItemKind × Text)) (e : Element) : Prop :=
  '\n' ∈ e.text ∨ e.Asked keys

/-- The tags are whole, and neither an item group nor the project closes among the children. -/
structure Whole (e : Element) : Prop where
  tag : '<' ∉ e.tag
  opens : e.body ≠ none → e.attributes.trimEnd.getLast? ≠ some '/'
  blanks : ∀ body ∈ e.body, body.2.all isBlank = true
  inside : ∀ body ∈ e.body, ∀ closer ∈ closers, ¬ closer <:+: body.1

/-- The closing tag has nothing but white space in front of it on its line. -/
def Ending (children : Text) : Prop :=
  '\n' ∈ children ∧ (children.reverse.takeWhile (· ≠ '\n')).all isBlank = true

/-- The item can be filed by a change to its filter only. The element closes itself and has no
attributes but its path, or its closing tag can be told and there is a filter or a line for one.
Without either a line goes in front of the element, which must not be within another one. -/
def Fine (e : Element) (cut : Prop) : Prop :=
  '>' ∉ e.attributes ∧ (e.body = none → e.attributes.all isBlank = true) ∧
    ∀ body ∈ e.body, body.2 = [] ∧ ¬ closingTag e.kind <:+: body.1 ∧
      (body.1.findAll takeFilterValue? ≠ [] ∨ Ending body.1 ∨
        '\n' ∉ e.start ++ '>' :: body.1 ∧ ¬ cut)

instance (keys : List (ItemKind × Text)) (e : Element) : Decidable (e.Asked keys) :=
  inferInstanceAs (Decidable (_ = true))

instance (keys : List (ItemKind × Text)) (e : Element) : Decidable (e.Spans keys) :=
  inferInstanceAs (Decidable (_ ∨ _))

instance (children : Text) : Decidable (Ending children) :=
  inferInstanceAs (Decidable (_ ∧ _))

instance (e : Element) (cut : Prop) [Decidable cut] : Decidable (e.Fine cut) :=
  inferInstanceAs (Decidable (_ ∧ _ ∧ ∀ body ∈ e.body, _ ∧ _ ∧ (_ ∨ _ ∨ _ ∧ _)))

instance (e : Element) : Decidable e.Whole :=
  decidable_of_iff ('<' ∉ e.tag ∧ (e.body ≠ none → e.attributes.trimEnd.getLast? ≠ some '/') ∧
      (∀ body ∈ e.body, body.2.all isBlank = true) ∧
      ∀ body ∈ e.body, ∀ closer ∈ closers, ¬ closer <:+: body.1)
    ⟨fun h => ⟨h.1, h.2.1, h.2.2.1, h.2.2.2⟩, fun h => ⟨h.tag, h.opens, h.blanks, h.inside⟩⟩

theorem Asked.mono (h : e.Asked keys') (hsub : keys' ⊆ keys) : e.Asked keys := by
  unfold Asked at h ⊢
  rw [Option.any_eq_true_iff_get] at h ⊢
  obtain ⟨hsome, hkey⟩ := h
  exact ⟨hsome, decide_eq_true (hsub (of_decide_eq_true hkey))⟩

theorem Spans.mono (h : e.Spans keys') (hsub : keys' ⊆ keys) : e.Spans keys :=
  h.imp_right fun hasked => hasked.mono hsub

theorem Fine.mono {cut cut' : Prop} (h : e.Fine cut) (hcut : cut' → cut) : e.Fine cut' := by
  obtain ⟨hclose, hblank, hbody⟩ := h
  refine ⟨hclose, hblank, fun body hmem => ?_⟩
  obtain ⟨hblanks, hclosing, hroom⟩ := hbody body hmem
  exact ⟨hblanks, hclosing, hroom.imp_right (.imp_right (.imp_right (mt hcut)))⟩

theorem text_of_none (h : e.body = none) :
    e.text = '<' :: ((e.kind.element ++ e.tag ++ ['/']) ++ ['>']) := by
  unfold text start finish
  rw [h]
  simp

theorem text_of_some {children blanks : Text} (h : e.body = some (children, blanks)) :
    e.text = ('<' :: ((e.kind.element ++ e.tag) ++ ['>'])) ++
      (children ++ '<' :: (('/' :: (e.kind.element ++ blanks)) ++ ['>'])) := by
  unfold text start finish
  rw [h]
  simp

theorem notMem_element (kind : ItemKind) : '<' ∉ kind.element :=
  fun hmem => absurd (isName_element kind _ hmem) (by decide)

theorem head?_element_append (kind : ItemKind) (rest : Text) :
    (kind.element ++ rest).head? = some 'C' := by
  cases kind <;> rfl

theorem Whole.notMem_start (h : e.Whole) : '<' ∉ e.kind.element ++ e.tag := by
  simp [notMem_element, h.tag]

theorem Whole.notMem_closing (h : e.Whole) {children blanks : Text}
    (hbody : e.body = some (children, blanks)) : '<' ∉ e.kind.element ++ blanks ++ ['>'] := by
  have hblanks : '<' ∉ blanks := fun hmem =>
    absurd (List.all_eq_true.mp (h.blanks _ hbody) _ hmem) (by decide)
  simp [notMem_element, hblanks]

theorem fenced_text (e : Element) (rest : Text) : Fenced (e.text ++ rest) := by
  refine .inr ⟨[], (e.kind.element ++ e.tag) ++ e.finish ++ rest, isBlank_of_mem_nil, rfl, ?_⟩
  rintro ⟨s, hs⟩
  have hhead : some '/' = some 'C' := by
    rw [← head?_element_append e.kind (e.tag ++ e.finish ++ rest)]
    simpa using congrArg List.head? hs
  exact absurd hhead (by decide)

theorem fenced_closing (kind : ItemKind) (rest : Text) :
    Fenced ('<' :: '/' :: (kind.element ++ rest)) := by
  refine .inr ⟨[], _, isBlank_of_mem_nil, rfl, ?_⟩
  rintro ⟨s, hs⟩
  have hhead : some 'F' = some 'C' := by
    rw [← head?_element_append kind rest]
    exact congrArg List.head? (List.cons.inj hs).2
  exact absurd hhead (by decide)

theorem Whole.sealed_start (h : e.Whole) : Sealed ('<' :: ((e.kind.element ++ e.tag) ++ ['>'])) :=
  ⟨[], e.kind.element ++ e.tag, [], rfl, h.notMem_start, List.not_mem_nil,
    by rw [head?_element_append]; decide⟩

theorem Whole.sealed_text (h : e.Whole) : Sealed e.text := by
  cases hbody : e.body with
  | none =>
      refine ⟨[], e.kind.element ++ e.tag ++ ['/'], [], text_of_none hbody, ?_, List.not_mem_nil, ?_⟩
      · simp [notMem_element, h.tag]
      · rw [List.append_assoc, head?_element_append]
        decide
  | some body =>
      obtain ⟨children, blanks⟩ := body
      have hblanks := h.notMem_closing hbody
      rw [text_of_some hbody]
      refine ⟨('<' :: ((e.kind.element ++ e.tag) ++ ['>'])) ++ children, _, [],
        (List.append_assoc _ _ _).symm, ?_, List.not_mem_nil,
        fun hhead => absurd (Option.some.inj hhead) (by decide)⟩
      simpa using hblanks

end Element

/-! ## Tags that close a group or the project -/

theorem closer_eq {closer : Text} (h : closer ∈ closers) :
    ∃ c tag, closer = '<' :: (('/' :: c :: tag) ++ ['>']) ∧ c ≠ 'C' ∧ '<' ∉ '/' :: c :: tag ∧
      '>' ∉ '/' :: c :: tag ∧ '\n' ∉ '/' :: c :: tag := by
  simp only [closers, List.mem_cons, List.not_mem_nil, or_false] at h
  rcases h with rfl | rfl
  · exact ⟨'I', "temGroup", rfl, by decide, by decide, by decide, by decide⟩
  · exact ⟨'P', "roject", rfl, by decide, by decide, by decide, by decide⟩

theorem closer_not_infix_of_notMem {t : Text} (h : '/' ∉ t ∨ 'I' ∉ t ∧ 'P' ∉ t) :
    ∀ closer ∈ closers, ¬ closer <:+: t := by
  intro closer hcloser hin
  simp only [closers, List.mem_cons, List.not_mem_nil, or_false] at hcloser
  rcases hcloser with rfl | rfl
  · exact h.elim (fun hnot => hnot (hin.mem (by decide))) fun hnot => hnot.1 (hin.mem (by decide))
  · exact h.elim (fun hnot => hnot (hin.mem (by decide))) fun hnot => hnot.2 (hin.mem (by decide))

/-- In a single tag of another name none of them is found. -/
theorem closer_not_infix_tag {closer r : Text} (h : closer ∈ closers) (hr : '<' ∉ r)
    (hname : r.head? ≠ some '/' ∨ r[1]? = some 'C') : ¬ closer <:+: '<' :: r := by
  obtain ⟨c, tag, rfl, hc, -⟩ := closer_eq h
  intro hin
  rcases List.infix_cons_iff.mp hin with ⟨s, hs⟩ | hin
  · obtain rfl := (List.cons.inj hs).2
    rcases hname with hhead | hsecond
    · exact hhead rfl
    · exact hc (Option.some.inj hsecond)
  · exact hr (hin.mem List.mem_cons_self)

theorem Element.Whole.closer_not_infix {e : Element} (h : e.Whole) {closer : Text}
    (hcloser : closer ∈ closers) : ¬ closer <:+: e.text := by
  have hopening : ∀ {r : Text}, '<' ∉ r → ¬ closer <:+: '<' :: (e.kind.element ++ r) := by
    intro r hr
    exact closer_not_infix_tag hcloser (by simp [notMem_element, hr])
      (.inl (by rw [head?_element_append]; decide))
  cases hbody : e.body with
  | none =>
      rw [text_of_none hbody, List.append_assoc, List.append_assoc]
      exact hopening (by simp [h.tag])
  | some body =>
      obtain ⟨children, blanks⟩ := body
      obtain ⟨c, tag, heq, -, hangle, hclose, hline⟩ := closer_eq hcloser
      have hfence := fenced_closing e.kind (blanks ++ ['>'])
      have hclosing : '<' ∉ '/' :: (e.kind.element ++ (blanks ++ ['>'])) := by
        have hblanks := h.notMem_closing hbody
        simpa using hblanks
      have htag : '<' :: (('/' :: (e.kind.element ++ blanks)) ++ ['>']) =
          '<' :: '/' :: (e.kind.element ++ (blanks ++ ['>'])) := by simp
      rw [text_of_some hbody, htag]
      intro hin
      rw [heq] at hin
      rcases tag_infix_of_sealed hangle hclose h.sealed_start hin with hin | hin
      · rw [← heq, List.append_assoc] at hin
        exact hopening (by simp [h.tag]) hin
      rcases tag_infix_of_seam (e := []) hangle hclose hline (.inr (by rwa [List.append_nil])) hin with
        hin | hin
      · exact h.inside _ hbody _ hcloser (heq ▸ hin)
      · have hsecond : ('/' :: (e.kind.element ++ (blanks ++ ['>'])))[1]? = some 'C' := by
          rw [List.getElem?_cons_succ, ← List.head?_eq_getElem?, head?_element_append]
        exact closer_not_infix_tag hcloser hclosing (.inr hsecond) (heq ▸ hin)

/-! ## Documents -/

/-- A filters file: elements with other text before, between and behind them. -/
inductive Document
  | plain (text : Text)
  | element (text : Text) (e : Element) (rest : Document)
deriving DecidableEq, Repr

/-- Neither an item group nor the project closes on the first line. -/
def Apart (t : Text) : Prop :=
  ∀ closer ∈ closers, ¬ closer <:+: t.takeWhile (· ≠ '\n')

namespace Document

def text : Document → Text
  | plain t => t
  | element t e d => t ++ (e.text ++ d.text)

protected def append : Document → Document → Document
  | plain t, plain t' => plain (t ++ t')
  | plain t, element t' e d => element (t ++ t') e d
  | element t e d, d' => element t e (d.append d')

instance : Append Document :=
  ⟨Document.append⟩

/-- The text before the first element. -/
def first : Document → Text
  | plain t => t
  | element t _ _ => t

/-- The text behind the last element. -/
def last : Document → Text
  | plain t => t
  | element _ _ d => d.last

@[simp] theorem plain_append_plain (t t' : Text) : plain t ++ plain t' = plain (t ++ t') := rfl

@[simp] theorem plain_append_element (t t' : Text) (e : Element) (d : Document) :
    plain t ++ element t' e d = element (t ++ t') e d := rfl

@[simp] theorem element_append (t : Text) (e : Element) (d d' : Document) :
    element t e d ++ d' = element t e (d ++ d') := rfl

@[simp] theorem text_append (d d' : Document) : (d ++ d').text = d.text ++ d'.text := by
  induction d with
  | plain t =>
      cases d' with
      | plain t' => rfl
      | element t' e d' => simp only [plain_append_element, text, List.append_assoc]
  | element t e d ih => simp only [element_append, text, ih, List.append_assoc]

theorem append_plain_nil (d : Document) : d ++ plain [] = d := by
  induction d with
  | plain t => simp
  | element t e d ih => rw [element_append, ih]

protected theorem append_assoc (d d' d'' : Document) : d ++ d' ++ d'' = d ++ (d' ++ d'') := by
  induction d with
  | plain t => cases d' <;> cases d'' <;> simp
  | element t e d ih => simp only [element_append, ih]

/-! ## Lines that start within an element -/

/-- The line on which the document ends starts within an element. To begin with that is so if `cut`
is. -/
def EndsCut (keys : List (ItemKind × Text)) : Prop → Document → Prop
  | cut, plain t => cut ∧ '\n' ∉ t
  | cut, element t e d => d.EndsCut keys (e.Spans keys ∨ cut ∧ '\n' ∉ t)

/-- Items with the keys can be put in and filed. No line on which a group or the project closes
starts within an element. -/
def Ready (keys : List (ItemKind × Text)) : Prop → Document → Prop
  | cut, plain t => cut → Apart t
  | cut, element t e d => (cut → Apart t) ∧ e.Whole ∧ (e.Asked keys → e.Fine (cut ∧ '\n' ∉ t)) ∧
      d.Ready keys (e.Spans keys ∨ cut ∧ '\n' ∉ t)

instance (t : Text) : Decidable (Apart t) :=
  inferInstanceAs (Decidable (∀ closer ∈ closers, ¬ closer <:+: _))

instance decidableReady (keys : List (ItemKind × Text)) :
    (cut : Prop) → [Decidable cut] → (d : Document) → Decidable (d.Ready keys cut)
  | _, _, plain _ => inferInstanceAs (Decidable (_ → _))
  | cut, _, element t e d =>
    have : Decidable (d.Ready keys (e.Spans keys ∨ cut ∧ '\n' ∉ t)) := decidableReady keys _ d
    inferInstanceAs (Decidable ((cut → Apart t) ∧ e.Whole ∧
      (e.Asked keys → e.Fine (cut ∧ '\n' ∉ t)) ∧ d.Ready keys (e.Spans keys ∨ cut ∧ '\n' ∉ t)))

variable {d : Document} {cut cut' : Prop}

theorem EndsCut.notMem_last (h : d.EndsCut keys cut) : '\n' ∉ d.last := by
  induction d generalizing cut with
  | plain t => exact h.2
  | element t e d ih => exact ih h

theorem endsCut_of_notMem (hcut : cut) (h : '\n' ∉ d.text) : d.EndsCut keys cut := by
  induction d generalizing cut with
  | plain t => exact ⟨hcut, h⟩
  | element t e d ih =>
      simp only [text, List.mem_append, not_or] at h
      exact ih (.inr ⟨hcut, h.1⟩) h.2.2

theorem Ready.mono (h : d.Ready keys cut) (hsub : keys' ⊆ keys)
    (hcut : cut' → cut) : d.Ready keys' cut' := by
  induction d generalizing cut cut' with
  | plain t => exact fun hin => h (hcut hin)
  | element t e d ih =>
      obtain ⟨hapart, hwhole, hfine, hrest⟩ := h
      refine ⟨fun hin => hapart (hcut hin), hwhole, fun hasked => ?_, ih hrest ?_⟩
      · exact (hfine (hasked.mono hsub)).mono fun hin => ⟨hcut hin.1, hin.2⟩
      · exact fun hin => hin.imp (·.mono hsub) fun hin => ⟨hcut hin.1, hin.2⟩

end Document

theorem takeWhile_append_of_mem {u : Text} (h : '\n' ∈ u) (v : Text) :
    (u ++ v).takeWhile (· ≠ '\n') = u.takeWhile (· ≠ '\n') := by
  obtain ⟨p, q, rfl, hp⟩ := List.eq_append_cons_of_mem h
  have hall := decide_ne_of_notMem hp
  rw [List.append_assoc, List.takeWhile_append_of_pos hall, List.takeWhile_append_of_pos hall]
  simp

theorem Apart.congr_line {u v v' : Text} (h : Apart (u ++ v)) (hline : '\n' ∈ u) :
    Apart (u ++ v') := by
  intro closer hcloser
  rw [takeWhile_append_of_mem hline]
  have hnot := h closer hcloser
  rwa [takeWhile_append_of_mem hline] at hnot

/-- Where one of the tags stands apart, a line ends before it. -/
theorem Apart.mem {before closer after : Text} (h : Apart (before ++ (closer ++ after)))
    (hcloser : closer ∈ closers) : '\n' ∈ before := by
  rw [← Classical.not_not (a := '\n' ∈ before)]
  intro hline
  obtain ⟨c, tag, heq, -, -, -, hnot⟩ := closer_eq hcloser
  have hall : ∀ d ∈ before ++ closer, decide (d ≠ '\n') = true := by
    refine fun d hd => decide_eq_true fun hd' => ?_
    rw [hd', heq] at hd
    simp only [List.mem_append, List.mem_cons] at hd hnot
    simp [hline] at hd
    exact hnot (by simpa using hd)
  refine h closer hcloser ?_
  rw [← List.append_assoc, List.takeWhile_append_of_pos hall]
  exact ⟨before, _, rfl⟩

/-! ## Where lines are put in -/

namespace Document

variable {d : Document} {cut : Prop}

theorem not_endsCut_plain {before closer rest : Text} (hcloser : closer ∈ closers)
    (h : cut → Apart (before ++ (closer ++ rest))) : ¬ (plain before).EndsCut keys cut :=
  fun hends => hends.2 ((h hends.1).mem hcloser)

/-- A tag that closes a group or the project stands in the text between elements, on a line that does
not start within one. -/
theorem Ready.split_closer (h : d.Ready keys cut) {before closer after : Text}
    (hcloser : closer ∈ closers) (htext : d.text = before ++ (closer ++ after)) :
    ∃ d₁ d₂, d = d₁ ++ (plain closer ++ d₂) ∧ d₁.text = before ∧ d₂.text = after ∧
      ¬ d₁.EndsCut keys cut := by
  induction d generalizing cut before with
  | plain t =>
      obtain rfl : t = before ++ (closer ++ after) := htext
      exact ⟨plain before, plain after, by simp, rfl, rfl, not_endsCut_plain hcloser h⟩
  | element t e d ih =>
      obtain ⟨hapart, hwhole, -, hrest⟩ := h
      obtain ⟨c, tag, heq, -, hangle, hnot, -⟩ := closer_eq hcloser
      have htext : t ++ (e.text ++ d.text) = (before ++ closer) ++ after := by
        rw [List.append_assoc]
        exact htext
      rcases append_eq_append_cases htext with ⟨v, rfl, rfl⟩ | ⟨s, hs, hfront, hback⟩
      · rw [List.append_assoc] at hapart
        exact ⟨plain before, element v e d, by simp, rfl, rfl, not_endsCut_plain hcloser hapart⟩
      rcases append_eq_append_cases hfront with ⟨s₁, rfl, rfl⟩ | ⟨w, hw, -, htag⟩
      · rcases append_eq_append_cases hback with ⟨r, hin, -⟩ | ⟨s₂, hs₂, hfront, hback⟩
        · exact absurd ⟨s₁, r, hin.symm⟩ (hwhole.closer_not_infix hcloser)
        rcases append_eq_append_cases hfront with ⟨s₃, rfl, rfl⟩ | ⟨w, hw, hend, htag⟩
        · obtain ⟨d₁, d₂, rfl, rfl, rfl, hends⟩ :=
            ih hrest (hback.trans (List.append_assoc _ _ _))
          exact ⟨element t e d₁, d₂, rfl, rfl, rfl, hends⟩
        · -- a tag that starts in the element ends there
          obtain ⟨q, rfl, -, hq, -, -⟩ := tag_crossing hangle hnot hw hs₂ (heq.symm.trans htag)
          have hmem := (hwhole.sealed_text.of_suffix (hend ▸ List.suffix_append s₁ _) rfl).mem
          simp [hq] at hmem
      · -- a tag that starts before the element ends before it
        obtain ⟨-, -, -, -, hin, hout⟩ := tag_crossing hangle hnot hw hs (heq.symm.trans htag)
        exact absurd hback ((e.fenced_text d.text).ne_append hin (by decide) hout after)

/-- The last line of a document that does not start within an element divides it between two
elements. -/
theorem split_line {a b : Text} (htext : d.text = a ++ b) (hend : a.getLast? = some '\n')
    (hb : '\n' ∉ b) (h : ¬ d.EndsCut keys cut) :
    ∃ d₁ d₂, d = d₁ ++ d₂ ∧ d₁.text = a ∧ d₂.text = b ∧ d₁.last.getLast? = some '\n' := by
  induction d generalizing cut a with
  | plain t =>
      obtain rfl : t = a ++ b := htext
      exact ⟨plain a, plain b, rfl, rfl, rfl, hend⟩
  | element t e d ih =>
      have htext : t ++ (e.text ++ d.text) = a ++ b := htext
      rcases append_eq_append_cases htext with ⟨v, rfl, rfl⟩ | ⟨s, hs, rfl, hback⟩
      · exact ⟨plain a, element v e d, rfl, rfl, rfl, hend⟩
      have hline : '\n' ∈ s := mem_of_getLast?_append hend hs
      rcases append_eq_append_cases hback with ⟨w, hin, rfl⟩ | ⟨s', hs', rfl, htail⟩
      · -- the line would start within the element
        rw [List.mem_append, not_or] at hb
        have hspans : e.Spans keys := .inl (hin ▸ List.mem_append_left w hline)
        exact absurd (endsCut_of_notMem (.inl hspans) hb.2) h
      · have hend' : s'.getLast? = some '\n' := by
          rw [← List.append_assoc, List.getLast?_append, List.getLast?_eq_some_getLast hs'] at hend
          rw [List.getLast?_eq_some_getLast hs']
          exact hend
        obtain ⟨d₁, d₂, rfl, rfl, rfl, hlast⟩ := ih htail hend' h
        exact ⟨element t e d₁, d₂, rfl, rfl, rfl, hlast⟩

/-- Lines in front of the last line of a document. -/
theorem insertBeforeLastLine_text (h : ¬ d.EndsCut keys cut) (lines : Text) :
    ∃ d₁ d₂, d = d₁ ++ d₂ ∧ insertBeforeLastLine d.text lines = d₁.text ++ (lines ++ d₂.text) ∧
      (d₁.last.getLast? = some '\n' ∨ d₁ = d ∧ d₂ = plain [] ∧ '\n' ∉ d.text) := by
  obtain ⟨a, b, htext, hlines, hb, hend | ⟨rfl, hnot⟩⟩ := insertBeforeLastLine_eq d.text lines
  · obtain ⟨d₁, d₂, rfl, rfl, rfl, hlast⟩ := split_line htext hend hb h
    exact ⟨d₁, d₂, rfl, hlines, .inl hlast⟩
  · rw [List.append_nil] at htext
    refine ⟨d, plain [], (append_plain_nil d).symm, ?_, .inr ⟨rfl, rfl, htext ▸ hnot⟩⟩
    rw [hlines, htext]
    rfl

end Document

/-! ## What an insertion keeps -/

/-- A new group has no closing tag on its first line. -/
theorem apart_append_itemGroup {t : Text} (hnl : IsLineBreak nl) (lines : Text) (h : Apart t) :
    Apart (t ++ itemGroup nl lines) := by
  by_cases hline : '\n' ∈ t
  · have h' : Apart (t ++ []) := by rwa [List.append_nil]
    exact h'.congr_line hline
  · intro closer hcloser hin
    have hall := decide_ne_of_notMem hline
    have hfirst : ∃ line, Fenced line ∧ (∀ closer ∈ closers, ¬ closer <:+: line) ∧
        (itemGroup nl lines).takeWhile (· ≠ '\n') = line := by
      have hfence : ∀ s : Text, Fenced ("  <ItemGroup>" ++ s) := by
        refine fun s => .inr ⟨"  ", "ItemGroup>" ++ s, List.all_eq_true.mp (by decide), rfl, ?_⟩
        rintro ⟨r, hr⟩
        exact absurd (List.cons.inj hr).1 (by decide)
      rcases hnl with rfl | rfl
      · exact ⟨"  <ItemGroup>", hfence [],
          closer_not_infix_of_notMem (.inl (by decide)), rfl⟩
      · exact ⟨"  <ItemGroup>\r", hfence ['\r'],
          closer_not_infix_of_notMem (.inl (by decide)), rfl⟩
    obtain ⟨line, hfence, hnone, hfirst⟩ := hfirst
    obtain ⟨c, tag, heq, -, hangle, hclose, hnot⟩ := closer_eq hcloser
    have hsame : t.takeWhile (· ≠ '\n') = t := by
      have htake : (t ++ []).takeWhile (· ≠ '\n') = t ++ [].takeWhile (· ≠ '\n') :=
        List.takeWhile_append_of_pos hall
      simpa using htake
    rw [List.takeWhile_append_of_pos hall, hfirst, heq] at hin
    rcases tag_infix_of_seam (e := []) hangle hclose hnot (.inr (by rwa [List.append_nil])) hin with
      hin | hin
    · exact h closer hcloser (by rwa [hsame, heq])
    · exact hnone closer hcloser (heq ▸ hin)

/-- A document has grown: there may be more text between the elements, and each element is related to
the one it was. -/
inductive Grown (same : Element → Element → Prop) : Document → Document → Prop
  | plain {t t' : Text} : t.Sublist t' → Grown same (.plain t) (.plain t')
  | element {t t' : Text} {e e' : Element} {d d' : Document} : t.Sublist t' → same e e' →
      Grown same d d' → Grown same (.element t e d) (.element t' e' d')

namespace Document

variable {d d₁ d₂ : Document} {e : Element} {cut : Prop} {x : Text}

/-- Text that is put in leaves a document ready, unless it is put on a line that starts within an
element. -/
theorem Ready.insert (h : (d₁ ++ d₂).Ready keys cut)
    (hx : ¬ d₁.EndsCut keys cut ∨ d₂ = plain [] ∧ ∀ t, Apart t → Apart (t ++ x)) :
    (d₁ ++ (plain x ++ d₂)).Ready keys cut := by
  induction d₁ generalizing cut with
  | plain u =>
      -- the text on both sides of the place
      have hapart : ∀ {v : Text}, d₂.first = v → (cut → Apart (u ++ v)) →
          cut → Apart (u ++ (x ++ v)) := by
        intro v hv hapart hcut
        rcases hx with hends | ⟨rfl, hx⟩
        · have hline : '\n' ∈ u := Classical.not_not.mp fun hnot => hends ⟨hcut, hnot⟩
          exact (hapart hcut).congr_line hline
        · obtain rfl : [] = v := hv
          rw [List.append_nil]
          exact hx u (by simpa using hapart hcut)
      cases d₂ with
      | plain v => exact hapart rfl h
      | element v e d =>
          obtain ⟨happ, hwhole, hfine, hrest⟩ := h
          have hcut : cut ∧ '\n' ∉ u ++ (x ++ v) → cut ∧ '\n' ∉ u ++ v := by
            simp only [List.mem_append, not_or]
            exact fun hin => ⟨hin.1, hin.2.1, hin.2.2.2⟩
          exact ⟨hapart rfl happ, hwhole, fun hasked => (hfine hasked).mono hcut,
            hrest.mono (List.Subset.refl _) (.imp_right hcut)⟩
  | element t e d₁ ih =>
      obtain ⟨hapart, hwhole, hfine, hrest⟩ := h
      exact ⟨hapart, hwhole, hfine, ih hrest hx⟩

/-- Lines are put in between two elements, at the start of a line or a tag, and leave the document
ready for more. -/
theorem insert_text {probe : Text → Option Text}
    (hprobe : TakesPiece fun t => (probe t).map fun rest => ((), rest)) (hnl : IsLineBreak nl)
    (h : d.Ready keys False) (lines : Text) :
    ∃ d₁ x d₂, d = d₁ ++ d₂ ∧ insert probe lines nl d.text = (d₁ ++ (plain x ++ d₂)).text ∧
      (x = lines ∨ x = itemGroup nl lines) ∧ Seam d₁.last d₂.first ∧
      (d₁ ++ (plain x ++ d₂)).Ready keys False := by
  rcases insert_cases hprobe lines nl d.text with
    ⟨before, closer, after, x, hcloser, hx, htext, hinsert⟩ | hinsert
  · obtain ⟨d₁, d₂, rfl, rfl, rfl, hends⟩ := h.split_closer hcloser htext
    obtain ⟨c₁, c₂, rfl, hlines, hplace⟩ := insertBeforeLastLine_text hends x
    rw [Document.append_assoc] at h
    refine ⟨c₁, x, c₂ ++ (plain closer ++ d₂), Document.append_assoc _ _ _, ?_, hx, ?_,
      h.insert (.inl ?_)⟩
    · rw [hinsert, hlines]
      simp only [text_append, text, List.append_assoc]
    · rcases hplace with hlast | ⟨-, rfl, -⟩
      · exact .inl hlast
      · refine .inr ?_
        cases d₂ with
        | plain t => exact fenced_closer hcloser t
        | element t e d => exact fenced_closer hcloser t
    · rcases hplace with hlast | ⟨heq, -, -⟩
      · exact fun hcut => hcut.notMem_last (List.mem_of_getLast? hlast)
      · rwa [heq]
  · have hend := append_plain_nil d
    refine ⟨d, itemGroup nl lines, plain [], hend.symm, ?_, .inr rfl, .inr (.inl rfl),
      Ready.insert (by rwa [hend]) (.inr ⟨rfl, fun t => apart_append_itemGroup hnl lines⟩)⟩
    rw [hinsert]
    simp only [text_append, plain_append_plain, text, List.append_nil]

theorem Ready.of_element (h : (d₁ ++ element [] e d₂).Ready keys cut) :
    e.Whole ∧ (e.Asked keys → e.Fine (d₁.EndsCut keys cut)) := by
  induction d₁ generalizing cut with
  | plain u =>
      obtain ⟨-, hwhole, hfine, -⟩ := h
      rw [List.append_nil] at hfine
      exact ⟨hwhole, hfine⟩
  | element t e' d₁ ih => exact ih h.2.2.2

/-- An element may give way to one that is not asked for any more. -/
theorem Ready.replace {e' : Element} {cut' : Prop} (h : (d₁ ++ element [] e d₂).Ready keys cut)
    (hsub : keys' ⊆ keys) (hcut : cut' → cut) (hspans : e.Spans keys) (hwhole : e'.Whole)
    (hasked : ¬ e'.Asked keys') : (d₁ ++ element [] e' d₂).Ready keys' cut' := by
  induction d₁ generalizing cut cut' with
  | plain u =>
      obtain ⟨hapart, -, -, hrest⟩ := h
      exact ⟨fun hin => hapart (hcut hin), hwhole, fun hin => absurd hin hasked,
        hrest.mono hsub fun _ => .inl hspans⟩
  | element t e'' d₁ ih =>
      obtain ⟨hapart, hwhole'', hfine, hrest⟩ := h
      refine ⟨fun hin => hapart (hcut hin), hwhole'', fun hin => ?_, ih hrest ?_⟩
      · exact (hfine (hin.mono hsub)).mono fun hin => ⟨hcut hin.1, hin.2⟩
      · exact fun hin => hin.imp (·.mono hsub) fun hin => ⟨hcut hin.1, hin.2⟩

theorem grown_refl {same : Element → Element → Prop} (hsame : ∀ e, same e e) (d : Document) :
    Grown same d d := by
  induction d with
  | plain t => exact .plain (List.Sublist.refl t)
  | element t e d ih => exact .element (List.Sublist.refl t) (hsame e) ih

theorem grown_insert {same : Element → Element → Prop} (hsame : ∀ e, same e e)
    (d₁ d₂ : Document) (x : Text) : Grown same (d₁ ++ d₂) (d₁ ++ (plain x ++ d₂)) := by
  have hsub : ∀ u v : Text, (u ++ v).Sublist (u ++ (x ++ v)) :=
    fun u v => (List.Sublist.refl u).append (List.sublist_append_right x v)
  induction d₁ with
  | plain u =>
      cases d₂ with
      | plain v => exact .plain (hsub u v)
      | element v e d => exact .element (hsub u v) (hsame e) (grown_refl hsame d)
  | element t e d₁ ih => exact .element (List.Sublist.refl t) (hsame e) ih

end Document

end Registrar.ProjectFile
