import Registrar.ProjectFile.Basic
import Registrar.Proofs.Readings
import Registrar.Proofs.Words

/-!
# Openings of elements

The elements of a project file are found in its text by their openings. This module says what an
opening looks like (`takeElement?_eq_some_iff`) and when two texts can be put together without an
opening that runs from one into the other (`Uncrossed`): the second starts with a tag (`Fenced`),
the first ends behind one (`Sealed`), or the first ends a line and openings keep to a line (`Tidy`).
Then the openings of the whole are those of its parts.
-/

namespace Registrar.Text

/-- What a needle leaves behind it in a text that has something in front. -/
theorem append_eq_append_cases {u b o rest : Text} (h : u ++ b = o ++ rest) :
    (∃ rest', u = o ++ rest' ∧ rest = rest' ++ b) ∨ ∃ s, s ≠ [] ∧ o = u ++ s ∧ b = s ++ rest := by
  rcases List.append_eq_append_iff.mp h with ⟨s, ho, hb⟩ | ⟨rest', hu, hrest⟩
  · by_cases hs : s = []
    · subst hs
      exact .inl ⟨[], by simpa using ho.symm, by simpa using hb.symm⟩
    · exact .inr ⟨s, hs, ho, hb⟩
  · exact .inl ⟨rest', hu, hrest⟩

theorem suffix_append_cases {u a b : Text} (h : u <:+ a ++ b) :
    u <:+ b ∨ ∃ v, v ≠ [] ∧ v <:+ a ∧ u = v ++ b := by
  obtain ⟨front, hfront⟩ := h
  rcases append_eq_append_cases hfront.symm with ⟨v, rfl, hu⟩ | ⟨s, -, -, hb⟩
  · by_cases hv : v = []
    · exact .inl (hu ▸ hv ▸ List.suffix_refl b)
    · exact .inr ⟨v, hv, List.suffix_append front v, hu⟩
  · exact .inl ⟨s, hb.symm⟩

/-- A text up to the first of some character is told by that character. -/
theorem eq_of_append_cons_eq {c : Char} {a a' b b' : Text} (ha : c ∉ a) (ha' : c ∉ a')
    (h : a ++ c :: b = a' ++ c :: b') : a = a' ∧ b = b' := by
  induction a generalizing a' with
  | nil =>
      cases a' with
      | nil => exact ⟨rfl, (List.cons.inj h).2⟩
      | cons d r => exact absurd ((List.cons.inj h).1 ▸ List.mem_cons_self) ha'
  | cons d r ih =>
      cases a' with
      | nil => exact absurd ((List.cons.inj h).1 ▸ List.mem_cons_self) ha
      | cons d' r' =>
          obtain ⟨rfl, hr⟩ := List.cons.inj h
          have := ih (fun hm => ha (List.mem_cons_of_mem d hm))
            (fun hm => ha' (List.mem_cons_of_mem d hm)) hr
          exact ⟨congrArg (d :: ·) this.1, this.2⟩

/-- Two divisions of a text at the end of a run of characters of a class are the same. -/
theorem eq_of_append_eq_append_of_class {p : Char → Bool} {a a' b b' : Text}
    (ha : ∀ c ∈ a, p c = true) (ha' : ∀ c ∈ a', p c = true)
    (hb : ∀ c, b.head? = some c → p c = false) (hb' : ∀ c, b'.head? = some c → p c = false)
    (h : a ++ b = a' ++ b') : a = a' ∧ b = b' := by
  have hrun : ∀ {x y : Text}, (∀ c ∈ x, p c = true) → (∀ c, y.head? = some c → p c = false) →
      (x ++ y).takeWhile p = x := by
    intro x y hx hy
    rw [List.takeWhile_append_of_pos hx]
    cases y with
    | nil => simp
    | cons c r => simp [hy c rfl]
  have heq : a = a' := by rw [← hrun ha hb, h, hrun ha' hb']
  subst heq
  exact ⟨rfl, List.append_cancel_left h⟩

/-- A character that stands at one place only starts one suffix only. -/
theorem eq_of_cons_suffix {c : Char} {a r tail : Text} (ha : c ∉ a) (htail : c ∉ tail)
    (h : c :: r <:+ a ++ c :: tail) : r = tail := by
  rcases suffix_append_cases h with h | ⟨v, hne, hv, heq⟩
  · rcases List.suffix_cons_iff.mp h with h | h
    · exact (List.cons.inj h).2
    · exact absurd (h.mem List.mem_cons_self) htail
  · obtain ⟨d, v, rfl⟩ := List.exists_cons_of_ne_nil hne
    obtain ⟨rfl, -⟩ := List.cons.inj heq
    exact absurd (hv.mem List.mem_cons_self) ha

theorem mem_of_getLast?_append {u s : Text} {c : Char} (h : (u ++ s).getLast? = some c)
    (hs : s ≠ []) : c ∈ s := by
  rw [List.getLast?_append, List.getLast?_eq_some_getLast hs] at h
  exact Option.some.inj h ▸ List.getLast_mem hs

end Registrar.Text

namespace Registrar.ProjectFile

open Text

variable {element : Text}

/-! ## What an opening looks like -/

/-- White space, and not nothing. -/
def Gap (gap : Text) : Prop :=
  gap ≠ [] ∧ ∀ c ∈ gap, isBlank c = true

/-- The opening of an element up to the quote that starts its path. -/
def opening (element gap : Text) : Text :=
  '<' :: (element ++ (gap ++ "Include=\""))

theorem getLast?_opening (element gap : Text) : (opening element gap).getLast? = some '"' := by
  have htext : opening element gap = '<' :: (element ++ (gap ++ "Include=".toList)) ++ ['"'] := by
    simp [opening]
  rw [htext, List.getLast?_concat]

theorem takeOpening?_eq_some_iff {t rest : Text} :
    takeOpening? element t = some rest ↔ ∃ gap, Gap gap ∧ t = opening element gap ++ rest := by
  constructor
  · intro h
    unfold takeOpening? at h
    obtain ⟨r₁, h₁, h⟩ := Option.bind_eq_some_iff.mp h
    obtain ⟨r₂, h₂, h⟩ := Option.bind_eq_some_iff.mp h
    obtain ⟨r₃, h₃, h⟩ := Option.bind_eq_some_iff.mp h
    rw [after?_eq_some_iff] at h₂ h
    cases t with
    | nil => cases h₁
    | cons d t =>
        rw [takeChar?] at h₁
        split at h₁
        · next hd =>
          obtain rfl := Option.some.inj h₁
          cases r₂ with
          | nil => cases h₃
          | cons c r =>
              rw [skipBlanks1?] at h₃
              split at h₃
              · next hc =>
                obtain rfl := Option.some.inj h₃
                refine ⟨c :: r.takeWhile isBlank, ⟨List.cons_ne_nil _ _, ?_⟩, ?_⟩
                · intro d hd
                  rcases List.mem_cons.mp hd with rfl | hd
                  · exact hc
                  · exact List.all_eq_true.mp List.all_takeWhile d hd
                · have hr : r = r.takeWhile isBlank ++ ("Include=\"".toList ++ rest) := by
                    rw [← h]
                    exact List.takeWhile_append_dropWhile.symm
                  rw [hd, h₂]
                  conv => lhs; rw [hr]
                  simp [opening]
              · cases h₃
        · cases h₁
  · rintro ⟨gap, ⟨hne, hblank⟩, rfl⟩
    obtain ⟨c, g, rfl⟩ := List.exists_cons_of_ne_nil hne
    have hskip : skipBlanks1? (c :: g ++ ("Include=\"".toList ++ rest)) =
        some ("Include=\"".toList ++ rest) := by
      rw [List.cons_append, skipBlanks1?, if_pos (hblank c List.mem_cons_self), trimStart,
        List.dropWhile_append_of_pos fun d hd => hblank d (List.mem_cons_of_mem c hd)]
      rfl
    have hname : (element ++ (c :: g ++ ("Include=\"".toList ++ rest))).after? element =
        some (c :: g ++ ("Include=\"".toList ++ rest)) := after?_eq_some_iff.mpr rfl
    have htext : opening element (c :: g) ++ rest =
        '<' :: (element ++ (c :: g ++ ("Include=\"".toList ++ rest))) := by
      simp [opening]
    rw [htext, takeOpening?]
    show (Text.after? _ element).bind _ = _
    rw [hname]
    show (skipBlanks1? _).bind _ = _
    rw [hskip]
    exact after?_eq_some_iff.mpr rfl

theorem takeQuotedValue?_eq_some_iff {t value rest : Text} :
    takeQuotedValue? t = some (value, rest) ↔
      value ≠ [] ∧ '"' ∉ value ∧ t = value ++ '"' :: rest := by
  constructor
  · intro h
    unfold takeQuotedValue? at h
    split at h
    · next c v d r htake hdrop =>
      obtain ⟨rfl, rfl⟩ := Prod.mk.inj (Option.some.inj h)
      have hd : d = '"' := by
        have := List.head?_dropWhile_not (fun c : Char => decide (c ≠ '"')) t
        rw [hdrop] at this
        simpa using this
      subst hd
      refine ⟨List.cons_ne_nil _ _, ?_, ?_⟩
      · intro hmem
        rw [← htake] at hmem
        simpa using List.all_eq_true.mp List.all_takeWhile _ hmem
      · rw [← htake, ← hdrop, List.takeWhile_append_dropWhile]
    · cases h
  · rintro ⟨hne, hvalue, rfl⟩
    rw [takeQuotedValue?, takeWhile_ne_append hvalue, dropWhile_ne_append hvalue]
    obtain ⟨c, v, rfl⟩ := List.exists_cons_of_ne_nil hne
    simp

theorem takeElement?_eq_some_iff {t path rest : Text} :
    takeElement? element t = some (path, rest) ↔ path ≠ [] ∧ '"' ∉ path ∧
      ∃ gap, Gap gap ∧ t = opening element gap ++ (path ++ '"' :: rest) := by
  unfold takeElement?
  rw [Option.bind_eq_bind, Option.bind_eq_some_iff]
  constructor
  · rintro ⟨quoted, hopening, hvalue⟩
    obtain ⟨gap, hgap, rfl⟩ := takeOpening?_eq_some_iff.mp hopening
    obtain ⟨hne, hquote, rfl⟩ := takeQuotedValue?_eq_some_iff.mp hvalue
    exact ⟨hne, hquote, gap, hgap, rfl⟩
  · rintro ⟨hne, hquote, gap, hgap, rfl⟩
    exact ⟨path ++ '"' :: rest, takeOpening?_eq_some_iff.mpr ⟨gap, hgap, rfl⟩,
      takeQuotedValue?_eq_some_iff.mpr ⟨hne, hquote, rfl⟩⟩

theorem takesPiece_takeElement? : TakesPiece (takeElement? element) := by
  intro t path rest h
  obtain ⟨hne, hquote, gap, hgap, rfl⟩ := takeElement?_eq_some_iff.mp h
  refine ⟨opening element gap ++ (path ++ ['"']), by simp [opening], by simp, fun s => ?_⟩
  exact takeElement?_eq_some_iff.mpr ⟨hne, hquote, gap, hgap, by simp⟩

/-- An item is an element of its kind with its path. -/
theorem takeItem?_eq_some_iff {t rest : Text} {i : ProjectItem} :
    takeItem? t = some (i, rest) ↔ takeElement? i.kind.element t = some (i.path, rest) := by
  unfold takeItem?
  constructor
  · intro h
    split at h
    · next path rest' hcompile =>
      obtain ⟨rfl, rfl⟩ := Prod.mk.inj (Option.some.inj h)
      exact hcompile
    · obtain ⟨⟨path, rest'⟩, hinclude, heq⟩ := Option.map_eq_some_iff.mp h
      obtain ⟨rfl, rfl⟩ := Prod.mk.inj heq
      exact hinclude
  · intro h
    obtain ⟨kind, path⟩ := i
    cases kind with
    | compile =>
        dsimp only at h
        rw [h]
    | include_ =>
        have hother : takeElement? ItemKind.compile.element t = none := by
          rw [Option.eq_none_iff_forall_ne_some]
          rintro ⟨path', rest'⟩ hfound
          obtain ⟨-, -, gap, -, heq⟩ := takeElement?_eq_some_iff.mp hfound
          obtain ⟨-, -, gap', -, heq'⟩ := takeElement?_eq_some_iff.mp h
          have hfourth : some 'C' = some 'I' := congrArg (·[3]?) (heq.symm.trans heq')
          exact absurd hfourth (by decide)
        dsimp only at h
        rw [hother, h]
        rfl

theorem takesPiece_takeItem? : TakesPiece takeItem? := by
  intro t i rest h
  have helement : takeElement? i.kind.element t = some (i.path, rest) := takeItem?_eq_some_iff.mp h
  obtain ⟨source, hne, heq, hsource⟩ := takesPiece_takeElement? t i.path rest helement
  exact ⟨source, hne, heq, fun s => takeItem?_eq_some_iff.mpr (hsource s)⟩

/-! ## Openings across two texts -/

/-- The name of an element: letters and other characters of words. -/
def IsName (element : Text) : Prop :=
  ∀ c ∈ element, isWord c = true

theorem isName_element (kind : ItemKind) : IsName kind.element := by
  cases kind
  · exact List.all_eq_true.mp (by decide)
  · exact List.all_eq_true.mp (by decide)

/-- An opening tells its element, its white space and what follows. -/
theorem opening_inj {element' gap gap' rest rest' : Text} (hname : IsName element)
    (hname' : IsName element') (hgap : Gap gap) (hgap' : Gap gap')
    (h : opening element gap ++ rest = opening element' gap' ++ rest') :
    element = element' ∧ gap = gap' ∧ rest = rest' := by
  have hblank : ∀ {g s : Text}, Gap g → ∀ c, (g ++ s).head? = some c → isWord c = false := by
    rintro g s ⟨hne, hg⟩ c hc
    obtain ⟨d, g, rfl⟩ := List.exists_cons_of_ne_nil hne
    obtain rfl : d = c := Option.some.inj hc
    exact isWord_eq_false_of_isBlank (hg d List.mem_cons_self)
  have hlabel : ∀ {s : Text} (c : Char), ("Include=\"".toList ++ s).head? = some c →
      isBlank c = false := by
    intro s c hc
    obtain rfl : 'I' = c := Option.some.inj hc
    decide
  have htext : element ++ (gap ++ ("Include=\"".toList ++ rest)) =
      element' ++ (gap' ++ ("Include=\"".toList ++ rest')) := by
    simpa [opening] using h
  obtain ⟨hel, htext⟩ :=
    eq_of_append_eq_append_of_class hname hname' (hblank hgap) (hblank hgap') htext
  obtain ⟨hg, htext⟩ :=
    eq_of_append_eq_append_of_class hgap.2 hgap'.2 hlabel hlabel htext
  exact ⟨hel, hg, List.append_cancel_left htext⟩

/-- No opening of the element starts in the first text and ends in the second. -/
def Uncrossed (element a b : Text) : Prop :=
  ∀ u gap rest, u <:+ a → u ≠ [] → Gap gap → u ++ b = opening element gap ++ rest →
    ∃ rest', u = opening element gap ++ rest'

theorem notMem_opening {c : Char} {gap : Text} (hname : IsName element) (hword : isWord c = false)
    (hc : c ∉ ("<\"=" : Text)) (hgap : c ∉ gap) : c ∉ opening element gap := by
  have hlabel : ∀ d ∈ ("Include=\"" : Text), isWord d = true ∨ d ∈ ("<\"=" : Text) :=
    forall_mem_of_all (by decide)
  intro hmem
  rcases List.mem_cons.mp hmem with rfl | hmem
  · exact hc (by decide)
  rcases List.mem_append.mp hmem with hmem | hmem
  · rw [hname c hmem] at hword
    cases hword
  rcases List.mem_append.mp hmem with hmem | hmem
  · exact hgap hmem
  · rcases hlabel c hmem with h | h
    · rw [h] at hword
      cases hword
    · exact hc h

/-- An opening that starts in the first text is whole there once that holds a character behind it
that no opening has. -/
theorem whole_of_mem {u b gap rest : Text} {c : Char} (h : u ++ b = opening element gap ++ rest)
    (hc : c ∈ u) (hnot : c ∉ opening element gap) : ∃ rest', u = opening element gap ++ rest' := by
  rcases append_eq_append_cases h with ⟨rest', hu, -⟩ | ⟨s, -, ho, -⟩
  · exact ⟨rest', hu⟩
  · exact absurd (ho ▸ List.mem_append_left s hc) hnot

/-- A text that is empty or, behind white space, starts with a tag, which is not the closing tag of a
filter. -/
def Fenced (t : Text) : Prop :=
  t = [] ∨ ∃ blanks r, (∀ c ∈ blanks, isBlank c = true) ∧ t = blanks ++ '<' :: r ∧
    ¬ ("/Filter>" : Text) <+: r

/-- A text whose last tag is whole and is not the opening tag of a filter. -/
def Sealed (t : Text) : Prop :=
  ∃ front tag blanks, t = front ++ '<' :: (tag ++ '>' :: blanks) ∧ '<' ∉ tag ∧ '<' ∉ blanks ∧
    tag.head? ≠ some 'F'

/-- A fenced text does not start with what is left of an opening, a path or a tag: that holds more than
white space before any angle bracket. -/
theorem Fenced.ne_append {b s : Text} {c : Char} (hb : Fenced b) (hc : c ∈ s)
    (hsolid : isBlank c = false) (hangle : '<' ∉ s) (rest : Text) : b ≠ s ++ rest := by
  have hblank : ∀ {blanks : Text}, (∀ d ∈ blanks, isBlank d = true) → c ∉ blanks := by
    intro blanks hblanks hmem
    rw [hblanks c hmem] at hsolid
    cases hsolid
  intro h
  rcases hb with rfl | ⟨blanks, r, hblanks, rfl, -⟩
  · exact absurd (List.append_eq_nil_iff.mp h.symm).1 (List.ne_nil_of_mem hc)
  · rcases append_eq_append_cases h.symm with ⟨x, rfl, hx⟩ | ⟨x, -, rfl, -⟩
    · cases x with
      | nil =>
          rw [List.append_nil] at hc
          exact hblank hblanks hc
      | cons d x =>
          obtain ⟨rfl, -⟩ := List.cons.inj hx
          exact hangle (List.mem_append_right _ List.mem_cons_self)
    · exact hblank hblanks (List.mem_append_left x hc)

/-- From any tag on, a sealed text is sealed. -/
theorem Sealed.of_suffix {a u : Text} (ha : Sealed a) (hu : u <:+ a) (hhead : u.head? = some '<') :
    Sealed u := by
  obtain ⟨front, tag, blanks, rfl, htag, hblanks, hfirst⟩ := ha
  rcases suffix_append_cases hu with hu | ⟨v, -, -, rfl⟩
  · rcases List.suffix_cons_iff.mp hu with rfl | hu
    · exact ⟨[], tag, blanks, rfl, htag, hblanks, hfirst⟩
    · have hmem := hu.mem (List.mem_of_mem_head? hhead)
      simp [htag, hblanks] at hmem
  · exact ⟨v, tag, blanks, rfl, htag, hblanks, hfirst⟩

theorem Sealed.mem {a : Text} (ha : Sealed a) : '>' ∈ a := by
  obtain ⟨front, tag, blanks, rfl, -⟩ := ha
  simp

theorem uncrossed_of_fenced (hname : IsName element) {b : Text} (hb : Fenced b) (a : Text) :
    Uncrossed element a b := by
  intro u gap rest _ hne hgap h
  rcases append_eq_append_cases h with ⟨rest', hu, -⟩ | ⟨s, hs, ho, hb'⟩
  · exact ⟨rest', hu⟩
  obtain ⟨c, u, rfl⟩ := List.exists_cons_of_ne_nil hne
  have ho : element ++ (gap ++ "Include=\"".toList) = u ++ s := (List.cons.inj ho).2
  -- what is left of the opening ends in a quote and holds no angle bracket
  have hquote : '"' ∈ s := by
    refine mem_of_getLast?_append (u := u) ?_ hs
    rw [← ho, ← List.append_assoc, List.getLast?_append]
    rfl
  have hangle : '<' ∉ s := by
    intro hmem
    have hmem : '<' ∈ element ++ (gap ++ "Include=\"".toList) := ho ▸ List.mem_append_right u hmem
    rcases List.mem_append.mp hmem with hmem | hmem
    · exact absurd (hname _ hmem) (by decide)
    rcases List.mem_append.mp hmem with hmem | hmem
    · exact absurd (hgap.2 _ hmem) (by decide)
    · exact absurd hmem (by decide)
  exact absurd hb' (hb.ne_append hquote (by decide) hangle rest)

theorem uncrossed_of_sealed (hname : IsName element) {a : Text} (ha : Sealed a) (b : Text) :
    Uncrossed element a b := by
  intro u gap rest hu hne hgap h
  have hhead : u.head? = some '<' := by
    obtain ⟨c, u, rfl⟩ := List.exists_cons_of_ne_nil hne
    exact congrArg some (List.cons.inj h).1
  refine whole_of_mem h (ha.of_suffix hu hhead).mem (notMem_opening hname (by decide) (by decide) ?_)
  intro hmem
  exact absurd (hgap.2 _ hmem) (by decide)

/-! ## Openings that keep to a line -/

/-- A path without the characters that end it or the line. -/
def Unmarked (path : Text) : Prop :=
  '"' ∉ path ∧ '<' ∉ path ∧ '\n' ∉ path

/-- Every opening of the element is on one line, with a path up to a closing quote. -/
def Tidy (element t : Text) : Prop :=
  ∀ gap rest, Gap gap → opening element gap ++ rest <:+ t →
    '\n' ∉ gap ∧ ∃ path rest', Unmarked path ∧ rest = path ++ '"' :: rest'

/-- Does a text go on to a closing quote before a line break or a bracket? -/
def startsWithPath : Text → Bool
  | [] => false
  | c :: r => c == '"' || (c != '<' && c != '\n' && startsWithPath r)

/-- Is an opening at the front of the text on one line, with a path up to a closing quote? -/
def tidyFront (element t : Text) : Bool :=
  match takeOpening? element t with
  | none => true
  | some rest => !(t.take (t.length - rest.length)).elem '\n' && startsWithPath rest

/-- Are all openings of the element on one line, with a path up to a closing quote? -/
def tidy (element : Text) : Text → Bool
  | [] => true
  | c :: r => tidyFront element (c :: r) && tidy element r

theorem exists_path_of_startsWithPath {t : Text} (h : startsWithPath t = true) :
    ∃ path rest, Unmarked path ∧ t = path ++ '"' :: rest := by
  induction t with
  | nil => cases h
  | cons c r ih =>
      simp only [startsWithPath, Bool.or_eq_true, Bool.and_eq_true, beq_iff_eq, bne_iff_ne] at h
      by_cases hquote : c = '"'
      · exact ⟨[], r, by simp [Unmarked], by rw [hquote]; rfl⟩
      · obtain ⟨⟨hangle, hline⟩, hr⟩ := h.resolve_left hquote
        obtain ⟨path, rest, hpath, rfl⟩ := ih hr
        refine ⟨c :: path, rest, ⟨?_, ?_, ?_⟩, rfl⟩
        · exact List.not_mem_cons_of_ne_of_not_mem (Ne.symm hquote) hpath.1
        · exact List.not_mem_cons_of_ne_of_not_mem (Ne.symm hangle) hpath.2.1
        · exact List.not_mem_cons_of_ne_of_not_mem (Ne.symm hline) hpath.2.2

/-- The check goes through all places where an opening can start. -/
theorem tidy_of_check {t : Text} (h : tidy element t = true) : Tidy element t := by
  intro gap rest hgap hsuffix
  have hfront : tidyFront element (opening element gap ++ rest) = true := by
    induction t with
    | nil => exact absurd (List.suffix_nil.mp hsuffix) (by simp [opening])
    | cons c r ih =>
        simp only [tidy, Bool.and_eq_true] at h
        rcases List.suffix_cons_iff.mp hsuffix with heq | hsuffix
        · exact heq ▸ h.1
        · exact ih h.2 hsuffix
  have hopening : takeOpening? element (opening element gap ++ rest) = some rest :=
    takeOpening?_eq_some_iff.mpr ⟨gap, hgap, rfl⟩
  rw [tidyFront, hopening] at hfront
  simp only [Bool.and_eq_true] at hfront
  refine ⟨fun hmem => ?_, exists_path_of_startsWithPath hfront.2⟩
  have htake : (opening element gap ++ rest).take
      ((opening element gap ++ rest).length - rest.length) = opening element gap := by simp
  have hin : '\n' ∈ opening element gap := by simp [opening, hmem]
  rw [htake] at hfront
  simp [hin] at hfront

theorem Tidy.of_suffix {a b : Text} (h : Tidy element b) (hab : a <:+ b) : Tidy element a :=
  fun gap rest hgap ha => h gap rest hgap (ha.trans hab)

theorem Tidy.append {a b : Text} (ha : Tidy element a) (hb : Tidy element b)
    (h : Uncrossed element a b) : Tidy element (a ++ b) := by
  intro gap rest hgap hsuffix
  rcases suffix_append_cases hsuffix with hsuffix | ⟨v, hne, hv, heq⟩
  · exact hb gap rest hgap hsuffix
  · obtain ⟨rest', rfl⟩ := h v gap rest hv hne hgap heq.symm
    obtain ⟨hline, path, rest'', hpath, rfl⟩ := ha gap rest' hgap hv
    refine ⟨hline, path, rest'' ++ b, hpath, ?_⟩
    rw [List.append_assoc] at heq
    rw [List.append_cancel_left heq]
    simp

/-- Two texts meet where a line starts or a tag does. -/
def Seam (a b : Text) : Prop :=
  a.getLast? = some '\n' ∨ Fenced b

theorem Seam.uncrossed (hname : IsName element) {a b : Text} (hseam : Seam a b)
    (h : Tidy element (a ++ b)) : Uncrossed element a b := by
  rcases hseam with hline | hb
  · intro u gap rest hu hne hgap heq
    have hend : '\n' ∈ u := by
      obtain ⟨front, rfl⟩ := hu
      exact mem_of_getLast?_append hline hne
    have hgapline := (h gap rest hgap (heq ▸ (List.suffix_append_self_iff).mpr hu)).1
    exact whole_of_mem heq hend (notMem_opening hname (by decide) (by decide) hgapline)
  · exact uncrossed_of_fenced hname hb a

theorem Seam.tidy_left {a b : Text} (hseam : Seam a b) (h : Tidy element (a ++ b)) :
    Tidy element a := by
  intro gap rest hgap hsuffix
  have hlong : opening element gap ++ (rest ++ b) <:+ a ++ b := by
    rw [← List.append_assoc]
    exact List.suffix_append_self_iff.mpr hsuffix
  obtain ⟨hline, path, rest', hpath, heq⟩ := h gap (rest ++ b) hgap hlong
  refine ⟨hline, ?_⟩
  -- the closing quote stands in the first text, because the path runs across no seam
  have heq' : rest ++ b = (path ++ ['"']) ++ rest' := by rw [heq]; simp
  rcases append_eq_append_cases heq' with ⟨rest'', hrest, -⟩ | ⟨s, hs, ho, hb⟩
  · exact ⟨path, rest'', hpath, by rw [hrest]; simp⟩
  exfalso
  rcases hseam with hend | hfence
  · obtain ⟨front, rfl⟩ := hsuffix
    by_cases hrest : rest = []
    · subst hrest
      rw [List.append_nil, List.getLast?_append, getLast?_opening] at hend
      exact absurd (Option.some.inj hend) (by decide)
    · rw [← List.append_assoc] at hend
      have hmem : '\n' ∈ rest := mem_of_getLast?_append hend hrest
      have hmem : '\n' ∈ path ++ ['"'] := ho ▸ List.mem_append_left s hmem
      rcases List.mem_append.mp hmem with hmem | hmem
      · exact hpath.2.2 hmem
      · exact absurd hmem (by decide)
  · have hquote : '"' ∈ s := mem_of_getLast?_append (u := rest) (by rw [← ho]; simp) hs
    have hangle : '<' ∉ s := by
      intro hmem
      have hmem : '<' ∈ path ++ ['"'] := ho ▸ List.mem_append_right rest hmem
      rcases List.mem_append.mp hmem with hmem | hmem
      · exact hpath.2.1 hmem
      · exact absurd hmem (by decide)
    exact hfence.ne_append hquote (by decide) hangle rest' hb

/-- The path of every opening of the element comes to a closing quote. -/
def Closed (element t : Text) : Prop :=
  ∀ gap rest, Gap gap → opening element gap ++ rest <:+ t → '"' ∈ rest

theorem Tidy.closed {t : Text} (h : Tidy element t) : Closed element t := by
  intro gap rest hgap hsuffix
  obtain ⟨-, path, rest', -, rfl⟩ := h gap rest hgap hsuffix
  simp

theorem Closed.append {a b : Text} (ha : Closed element a) (hb : Closed element b)
    (h : Uncrossed element a b) : Closed element (a ++ b) := by
  intro gap rest hgap hsuffix
  rcases suffix_append_cases hsuffix with hsuffix | ⟨v, hne, hv, heq⟩
  · exact hb gap rest hgap hsuffix
  · obtain ⟨rest', rfl⟩ := h v gap rest hv hne hgap heq.symm
    rw [List.append_assoc] at heq
    rw [List.append_cancel_left heq]
    exact List.mem_append_left b (ha gap rest' hgap hv)

/-- Where paths are closed and no opening crosses, elements are read part by part. -/
theorem Closed.parts {a b : Text} (ha : Closed element a) (h : Uncrossed element a b) :
    Parts (takeElement? element) a b := by
  intro u hu hne hnone
  rw [Option.eq_none_iff_forall_ne_some] at hnone ⊢
  rintro ⟨path, rest⟩ hfound
  obtain ⟨hpath, hquote, gap, hgap, heq⟩ := takeElement?_eq_some_iff.mp hfound
  obtain ⟨rest', rfl⟩ := h u gap _ hu hne hgap heq
  obtain ⟨path', rest'', rfl, hquote'⟩ := List.eq_append_cons_of_mem (ha gap rest' hgap hu)
  rw [List.append_assoc] at heq
  have heq := List.append_cancel_left heq
  rw [List.append_assoc, List.cons_append] at heq
  obtain ⟨rfl, -⟩ := eq_of_append_cons_eq hquote' hquote heq
  exact hnone _ (takeElement?_eq_some_iff.mpr ⟨hpath, hquote, gap, hgap, rfl⟩)

/-- In tidy texts without an opening that crosses, elements are read part by part. -/
theorem parts_takeElement? {a b : Text} (ha : Tidy element a) (h : Uncrossed element a b) :
    Parts (takeElement? element) a b :=
  ha.closed.parts h

/-- Items are read part by part when the elements of both kinds are. -/
theorem parts_takeItem? {a b : Text}
    (h : ∀ kind : ItemKind, Parts (takeElement? kind.element) a b) : Parts takeItem? a b := by
  intro u hu hne hnone
  rw [Option.eq_none_iff_forall_ne_some] at hnone ⊢
  rintro ⟨i, rest⟩ hsome
  have hlong := takeItem?_eq_some_iff.mp hsome
  cases hshort : takeElement? i.kind.element u with
  | none =>
      rw [h i.kind u hu hne hshort] at hlong
      cases hlong
  | some found =>
      obtain ⟨path, rest'⟩ := found
      exact hnone (⟨i.kind, path⟩, rest') (takeItem?_eq_some_iff.mpr hshort)

theorem items_eq_nil_of_notMem {t : Text} (h : '<' ∉ t) : items t = [] := by
  refine findAll_eq_nil_of_fails ?_
  induction t with
  | nil => rfl
  | cons c r ih =>
      have hnone : takeItem? (c :: r) = none := by
        rw [Option.eq_none_iff_forall_ne_some]
        rintro ⟨i, rest⟩ hsome
        obtain ⟨-, -, gap, -, heq⟩ := takeElement?_eq_some_iff.mp (takeItem?_eq_some_iff.mp hsome)
        exact h ((List.cons.inj heq).1 ▸ List.mem_cons_self)
      rw [fails, hnone, ih fun hmem => h (List.mem_cons_of_mem c hmem)]
      rfl

/-- Where paths are closed and no opening crosses, the items are those of the parts. -/
theorem items_append_of_closed {a b : Text} (ha : ∀ kind : ItemKind, Closed kind.element a)
    (h : ∀ kind : ItemKind, Uncrossed kind.element a b) : items (a ++ b) = items a ++ items b :=
  takesPiece_takeItem?.findAll_append (parts_takeItem? fun kind => (ha kind).parts (h kind))

theorem items_append {a b : Text} (ha : ∀ kind : ItemKind, Tidy kind.element a)
    (h : ∀ kind : ItemKind, Uncrossed kind.element a b) : items (a ++ b) = items a ++ items b :=
  items_append_of_closed (fun kind => (ha kind).closed) h

/-! ## The opening of one item -/

theorem gap_space : Gap " " :=
  ⟨by decide, isBlank_of_mem_space⟩

theorem exists_element_eq (kind : ItemKind) : ∃ name, kind.element = 'C' :: name := by
  cases kind
  · exact ⟨_, rfl⟩
  · exact ⟨_, rfl⟩

theorem fenced_opening (kind : ItemKind) (gap rest : Text) :
    Fenced (opening kind.element gap ++ rest) := by
  obtain ⟨name, hname⟩ := exists_element_eq kind
  refine .inr ⟨[], kind.element ++ (gap ++ "Include=\"") ++ rest, isBlank_of_mem_nil, rfl, ?_⟩
  rintro ⟨s, hs⟩
  rw [hname] at hs
  exact absurd (List.cons.inj hs).1 (by decide)

/-- An opening with its path is tidy when no other one follows. -/
theorem tidy_opening {element' gap path tail : Text} (hname : IsName element)
    (hname' : IsName element') (hgap : Gap gap) (hline : '\n' ∉ gap) (hpath : Unmarked path)
    (htail : '<' ∉ tail) : Tidy element (opening element' gap ++ (path ++ '"' :: tail)) := by
  have hangle : '<' ∉ element' ++ (gap ++ "Include=\"") ++ (path ++ '"' :: tail) := by
    have helement : '<' ∉ element' := fun hmem => absurd (hname' _ hmem) (by decide)
    have hblank : '<' ∉ gap := fun hmem => absurd (hgap.2 _ hmem) (by decide)
    simp only [List.mem_append, List.mem_cons, not_or]
    exact ⟨⟨helement, hblank, by decide⟩, hpath.2.1, by decide, htail⟩
  intro gap' rest hgap' hsuffix
  have heq : opening element gap' ++ rest = opening element' gap ++ (path ++ '"' :: tail) :=
    congrArg ('<' :: ·) (eq_of_cons_suffix (a := []) List.not_mem_nil hangle hsuffix)
  obtain ⟨-, rfl, rfl⟩ := opening_inj hname hname' hgap' hgap heq
  exact ⟨hline, path, tail, hpath, rfl⟩

theorem takeItem?_opening {i : ProjectItem} {gap : Text} (hne : i.path ≠ [])
    (hquote : '"' ∉ i.path) (hgap : Gap gap) (tail : Text) :
    takeItem? (opening i.kind.element gap ++ (i.path ++ '"' :: tail)) = some (i, tail) :=
  takeItem?_eq_some_iff.mpr (takeElement?_eq_some_iff.mpr ⟨hne, hquote, gap, hgap, rfl⟩)

end Registrar.ProjectFile
