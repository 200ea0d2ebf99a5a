import Registrar.Proofs.ElementOpenings

/-!
# Markup

A text is read as character data with markup in it: tags, by what stands between their brackets, and
comments, sections and instructions, which say nothing about elements. Tags open and close elements.
`openAt?` gives the elements that are open at the end of a text, innermost first, and `tags` the tags
with which elements start, each with the elements around it.

Both are read part by part. A text in which every element is closed can stand at any place between
markup: what is open behind it does not change (`openAt?_edit`), and neither do the tags of the rest
(`tags_splice`).
-/

namespace Registrar.Text

/-- The needle is found at the same place whatever follows it. -/
theorem cut?_source {t needle before rest : Text} (h : t.cut? needle = some (before, rest))
    (s : Text) :
    (before ++ (needle ++ s)).cut? needle = some (before, s) := by
  have hshort : (before ++ needle).cut? needle = some (before, []) := by
    cases hcut : (before ++ needle).cut? needle with
    | none => exact absurd (List.suffix_append before needle).isInfix (cut?_eq_none_iff.mp hcut)
    | some found =>
        obtain ⟨front, back⟩ := found
        have hlong := cut?_append hcut rest
        rw [← eq_of_cut? h, h] at hlong
        obtain ⟨rfl, -⟩ := Prod.mk.inj (Option.some.inj hlong)
        have hback : needle ++ back = needle :=
          List.append_cancel_left (List.append_assoc before needle back ▸ (eq_of_cut? hcut).symm)
        rw [List.append_right_eq_self.mp hback]
  rw [← List.append_assoc]
  exact cut?_append hshort s

end Registrar.Text

namespace Registrar.Markup

open Text

/-! ## Pieces of markup -/

/-- A piece of markup. -/
inductive Piece
  /-- The tag that opens an element. -/
  | opening (tag : Text)
  /-- The tag of an element that closes itself. -/
  | single (tag : Text)
  | closing (name : Text)
  /-- A comment, a section of character data, an instruction or a declaration. -/
  | other
deriving DecidableEq

/-- The quote that is open behind a character of a tag. -/
def quoteAfter (quote : Option Char) (c : Char) : Option Char :=
  match quote with
  | some q => if c = q then none else some q
  | none => if c ∈ ("\"'" : Text) then some c else none

/-- What stands before the bracket that ends a tag, and what follows it. A bracket in quotes does not
end the tag. -/
def takeTag? (quote : Option Char) : Text → Option (Text × Text)
  | [] => none
  | c :: r =>
    if c = '<' then none
    else if c = '>' ∧ quote = none then some ([], r)
    else (takeTag? (quoteAfter quote c) r).map fun found => (c :: found.1, found.2)

/-- How markup other than tags starts and ends. -/
def sections : List (Text × Text) :=
  [("!--", "-->"), ("![CDATA[", "]]>"), ("?", "?>")]

/-- The end of the section that starts at the front of a text, and what follows the start. -/
def takeSection? (t : Text) : Option (Text × Text) :=
  sections.findSome? fun ends => (t.after? ends.1).map fun body => (ends.2, body)

/-- The piece that a tag is. A slash that is neither its first character nor its last one is part of a
value. -/
def ofTag? : Text → Option Piece
  | [] => none
  | c :: r =>
    if c = '/' then some (.closing (Text.trimEnd r))
    else if c = '!' then some .other
    else if (c :: r).getLast? = some '/' then some (.single (Text.trimEnd (c :: r).dropLast))
    else if (Text.trimEnd (c :: r)).getLast? = some '/' then none
    else some (.opening (c :: r))

/-- A piece behind the bracket that starts it; the rest. -/
def takeInside? (t : Text) : Option (Piece × Text) :=
  match takeSection? t with
  | some (stop, body) => (body.cut? stop).map fun found => (.other, found.2)
  | none => (takeTag? none t).bind fun found => (ofTag? found.1).map fun p => (p, found.2)

/-- A piece of markup at the front of a text; the rest. -/
def take? : Text → Option (Piece × Text)
  | [] => none
  | c :: r => if c = '<' then takeInside? r else none

/-- The text is a piece of markup when it stands between brackets, whatever follows. -/
def Spells (inside : Text) (p : Piece) : Prop :=
  ∀ s, take? ('<' :: (inside ++ '>' :: s)) = some (p, s)

/-- The markup of a text. Nothing when the text ends within a piece. -/
def pieces? (t : Text) : Option (List Piece) :=
  match t with
  | [] => some []
  | c :: r =>
    match take? (c :: r) with
    | some (p, rest) =>
      if rest.length < (c :: r).length then (pieces? rest).map (p :: ·) else none
    | none => if c = '<' then none else pieces? r
termination_by t.length
decreasing_by
  · assumption
  · exact Nat.lt_succ_self r.length

/-- A tag ends at the first bracket outside quotes, whatever follows, and holds no other one that could
start markup. -/
theorem of_takeTag? {quote : Option Char} {t tag rest : Text}
    (h : takeTag? quote t = some (tag, rest)) :
    t = tag ++ '>' :: rest ∧ '<' ∉ tag ∧ ∀ s, takeTag? quote (tag ++ '>' :: s) = some (tag, s) := by
  induction t generalizing quote tag with
  | nil => cases h
  | cons c r ih =>
      rw [takeTag?] at h
      split at h
      · cases h
      · next hangle =>
        split at h
        · next hend =>
          cases h
          refine ⟨by rw [hend.1]; rfl, List.not_mem_nil, fun s => ?_⟩
          rw [List.nil_append, takeTag?, if_neg (by decide), if_pos ⟨rfl, hend.2⟩]
        · next hend =>
          obtain ⟨⟨tail, rest'⟩, htail, heq⟩ := Option.map_eq_some_iff.mp h
          cases heq
          obtain ⟨rfl, hmem, hagain⟩ := ih htail
          refine ⟨rfl, List.not_mem_cons_of_ne_of_not_mem (Ne.symm hangle) hmem, fun s => ?_⟩
          rw [List.cons_append, takeTag?, if_neg hangle, if_neg hend, hagain]
          rfl

theorem takeSection?_eq_some_iff {t stop body : Text} :
    takeSection? t = some (stop, body) ↔ ∃ start, (start, stop) ∈ sections ∧ t = start ++ body := by
  constructor
  · intro h
    obtain ⟨⟨start, stop'⟩, hmem, hends⟩ := List.exists_of_findSome?_eq_some h
    obtain ⟨body', hbody, heq⟩ := Option.map_eq_some_iff.mp hends
    cases heq
    exact ⟨start, hmem, after?_eq_some_iff.mp hbody⟩
  · rintro ⟨start, hmem, rfl⟩
    simp only [sections, List.mem_cons, Prod.mk.injEq, List.not_mem_nil, or_false] at hmem
    rcases hmem with ⟨rfl, rfl⟩ | ⟨rfl, rfl⟩ | ⟨rfl, rfl⟩
    · simp [takeSection?, sections, after?]
    · simp [takeSection?, sections, after?]
    · simp [takeSection?, sections, after?]

theorem takeSection?_eq_none_iff {t : Text} :
    takeSection? t = none ↔ ∀ ends ∈ sections, ¬ ends.1 <+: t := by
  unfold takeSection?
  rw [List.findSome?_eq_none_iff]
  refine forall₂_congr fun ends _ => ?_
  rw [Option.map_eq_none_iff, Option.eq_none_iff_forall_ne_some]
  constructor
  · rintro h ⟨body, hbody⟩
    exact h body (after?_eq_some_iff.mpr hbody.symm)
  · intro h body hbody
    exact h ⟨body, (after?_eq_some_iff.mp hbody).symm⟩

theorem of_takeInside? {t rest : Text} {p : Piece} (h : takeInside? t = some (p, rest)) :
    ∃ inside, t = inside ++ '>' :: rest ∧
      ∀ s, takeInside? (inside ++ '>' :: s) = some (p, s) := by
  unfold takeInside? at h
  split at h
  · next stop body hsection =>
    obtain ⟨start, hmem, rfl⟩ := takeSection?_eq_some_iff.mp hsection
    obtain ⟨⟨content, rest'⟩, hcut, heq⟩ := Option.map_eq_some_iff.mp h
    cases heq
    have hstop : ∃ stop', stop = stop' ++ ['>'] := by
      simp only [sections, List.mem_cons, Prod.mk.injEq, List.not_mem_nil, or_false] at hmem
      rcases hmem with ⟨-, rfl⟩ | ⟨-, rfl⟩ | ⟨-, rfl⟩
      · exact ⟨"--", rfl⟩
      · exact ⟨"]]", rfl⟩
      · exact ⟨"?", rfl⟩
    obtain ⟨stop', rfl⟩ := hstop
    refine ⟨start ++ (content ++ stop'), by rw [eq_append_of_cut? hcut]; simp, fun s => ?_⟩
    have htext : start ++ (content ++ stop') ++ '>' :: s =
        start ++ (content ++ (stop' ++ ['>'] ++ s)) := by simp
    rw [htext, takeInside?, takeSection?_eq_some_iff.mpr ⟨start, hmem, rfl⟩]
    dsimp only
    rw [cut?_source hcut]
    rfl
  · next hsection =>
    obtain ⟨⟨tag, rest'⟩, htag, heq⟩ := Option.bind_eq_some_iff.mp h
    obtain ⟨p', hp, heq⟩ := Option.map_eq_some_iff.mp heq
    cases heq
    obtain ⟨rfl, -, hagain⟩ := of_takeTag? htag
    refine ⟨tag, rfl, fun s => ?_⟩
    -- no section starts in front of the bracket, and none runs across it
    have hnone : takeSection? (tag ++ '>' :: s) = none := by
      rw [takeSection?_eq_none_iff] at hsection ⊢
      have hstarts : ∀ ends ∈ sections, '>' ∉ ends.1 := by decide
      rintro ends hmem ⟨body, hbody⟩
      rcases append_eq_append_cases hbody.symm with ⟨tail, rfl, -⟩ | ⟨tail, hne, hends, htail⟩
      · exact hsection ends hmem ⟨tail ++ '>' :: rest', by simp⟩
      · obtain ⟨c, tail, rfl⟩ := List.exists_cons_of_ne_nil hne
        obtain ⟨rfl, -⟩ := List.cons.inj htail
        exact hstarts ends hmem (hends ▸ List.mem_append_right tag List.mem_cons_self)
    rw [takeInside?, hnone]
    dsimp only
    rw [hagain]
    show (ofTag? tag).map _ = _
    rw [hp]
    rfl

/-- A piece stands between brackets and is read whatever follows. -/
theorem of_take? {t rest : Text} {p : Piece} (h : take? t = some (p, rest)) :
    ∃ inside, t = '<' :: (inside ++ '>' :: rest) ∧ Spells inside p := by
  cases t with
  | nil => cases h
  | cons c r =>
      rw [take?] at h
      split at h
      · next hc =>
        obtain ⟨inside, rfl, hagain⟩ := of_takeInside? h
        exact ⟨inside, by rw [hc], hagain⟩
      · cases h

theorem takesPiece_take? : TakesPiece take? := by
  intro t p rest h
  obtain ⟨inside, rfl, hagain⟩ := of_take? h
  refine ⟨'<' :: (inside ++ ['>']), List.cons_ne_nil _ _, by simp, fun s => ?_⟩
  have htext : '<' :: (inside ++ ['>']) ++ s = '<' :: (inside ++ '>' :: s) := by simp
  rw [htext, hagain]

/-- A text is gone through character by character, and piece by piece up to one that does not end. -/
theorem markup_induction {motive : Text → Prop} (nil : motive [])
    (plain : ∀ c r, c ≠ '<' → motive r → motive (c :: r))
    (broken : ∀ r, take? ('<' :: r) = none → motive ('<' :: r))
    (piece : ∀ inside p rest, Spells inside p → motive rest →
      motive ('<' :: (inside ++ '>' :: rest))) (t : Text) : motive t := by
  induction t using takesPiece_take?.induction with
  | nil => exact nil
  | skip c r hnone ih =>
      by_cases hc : c = '<'
      · subst hc
        exact broken r hnone
      · exact plain c r hc ih
  | piece source p rest _ hsource ih =>
      obtain ⟨inside, heq, hagain⟩ := of_take? (hsource rest)
      rw [heq]
      exact piece inside p rest hagain ih

/-! ## The markup of a text -/

theorem pieces?_nil : pieces? [] = some [] := by
  rw [pieces?]

theorem pieces?_cons {c : Char} (hc : c ≠ '<') (r : Text) : pieces? (c :: r) = pieces? r := by
  rw [pieces?, take?, if_neg hc]
  exact if_neg hc

theorem pieces?_broken {r : Text} (h : take? ('<' :: r) = none) : pieces? ('<' :: r) = none := by
  rw [pieces?, h]
  exact if_pos rfl

theorem pieces?_piece {inside : Text} {p : Piece} (h : Spells inside p) (rest : Text) :
    pieces? ('<' :: (inside ++ '>' :: rest)) = (pieces? rest).map (p :: ·) := by
  rw [pieces?, h]
  refine if_pos ?_
  simp only [List.length_cons, List.length_append]
  omega

theorem pieces?_of_notMem {s : Text} (h : '<' ∉ s) (t : Text) : pieces? (s ++ t) = pieces? t := by
  induction s with
  | nil => rfl
  | cons c s ih =>
      rw [List.mem_cons, not_or] at h
      rw [List.cons_append, pieces?_cons (Ne.symm h.1), ih h.2]

theorem pieces?_append {a : Text} {ps : List Piece} (h : pieces? a = some ps) (b : Text) :
    pieces? (a ++ b) = (pieces? b).map (ps ++ ·) := by
  induction a using markup_induction generalizing ps with
  | nil =>
      rw [pieces?_nil] at h
      cases h
      simp
  | plain c r hc ih =>
      rw [pieces?_cons hc] at h
      rw [List.cons_append, pieces?_cons hc, ih h]
  | broken r hnone =>
      rw [pieces?_broken hnone] at h
      cases h
  | piece inside p rest hagain ih =>
      rw [pieces?_piece hagain] at h
      obtain ⟨ps, hps, rfl⟩ := Option.map_eq_some_iff.mp h
      have htext : '<' :: (inside ++ '>' :: rest) ++ b = '<' :: (inside ++ '>' :: (rest ++ b)) := by
        simp
      rw [htext, pieces?_piece hagain, ih hps, Option.map_map]
      rfl

/-- A part of a piece from its front is not markup yet. -/
theorem pieces?_part {inside s r : Text} {p : Piece} (h : Spells inside p) (hs : s ≠ []) (hr : r ≠ [])
    (heq : '<' :: (inside ++ ['>']) = s ++ r) : pieces? s = none := by
  obtain ⟨c, s, rfl⟩ := List.exists_cons_of_ne_nil hs
  obtain ⟨rfl, -⟩ := List.cons.inj heq
  refine pieces?_broken ?_
  rw [Option.eq_none_iff_forall_ne_some]
  rintro ⟨p', rest⟩ hpart
  have hwhole := takesPiece_take?.append hpart r
  rw [← heq, h] at hwhole
  obtain ⟨-, hnil⟩ := Prod.mk.inj (Option.some.inj hwhole)
  exact hr (List.append_eq_nil_iff.mp hnil.symm).2

theorem notMem_of_spells {inside : Text} {p : Piece} (h : Spells inside p) (hp : p ≠ .other) :
    '<' ∉ inside := by
  have hread : takeInside? (inside ++ ['>']) = some (p, []) := h []
  unfold takeInside? at hread
  split at hread
  · obtain ⟨found, _, hpair⟩ := Option.map_eq_some_iff.mp hread
    exact absurd (Prod.mk.inj hpair).1.symm hp
  · obtain ⟨⟨tag, rest⟩, htag, hfound⟩ := Option.bind_eq_some_iff.mp hread
    obtain ⟨_, _, hpair⟩ := Option.map_eq_some_iff.mp hfound
    obtain rfl : rest = [] := (Prod.mk.inj hpair).2
    obtain ⟨hinside, hangle, -⟩ := of_takeTag? htag
    rwa [List.append_cancel_right hinside]

/-- Where a text has no markup but tags, every bracket that could start one does. -/
theorem isSome_pieces?_of_tags {t before rest : Text} {ps : List Piece} (h : pieces? t = some ps)
    (hother : .other ∉ ps) (ht : t = before ++ '<' :: rest) : (pieces? before).isSome := by
  induction t using markup_induction generalizing before ps with
  | nil => simp at ht
  | plain c r hc ih =>
      cases before with
      | nil => exact absurd (List.cons.inj ht).1 hc
      | cons d before =>
          obtain ⟨rfl, hr⟩ := List.cons.inj ht
          rw [pieces?_cons hc] at h ⊢
          exact ih h hother hr
  | broken r hnone =>
      rw [pieces?_broken hnone] at h
      cases h
  | piece inside p rest' hspells ih =>
      rw [pieces?_piece hspells] at h
      obtain ⟨ps, hps, rfl⟩ := Option.map_eq_some_iff.mp h
      rw [List.mem_cons, not_or] at hother
      cases before with
      | nil => rw [pieces?_nil]; rfl
      | cons d before =>
          obtain ⟨rfl, hr⟩ := List.cons.inj ht
          have hangle := notMem_of_spells hspells (Ne.symm hother.1)
          rcases append_eq_append_cases hr with ⟨tail, rfl, htail⟩ | ⟨tail, hne, rfl, htail⟩
          · cases tail with
            | nil => exact absurd (List.cons.inj htail).1 (by decide)
            | cons c tail =>
                obtain ⟨rfl, -⟩ := List.cons.inj htail
                exact absurd (List.mem_append_right before List.mem_cons_self) hangle
          · obtain ⟨c, tail, rfl⟩ := List.exists_cons_of_ne_nil hne
            obtain ⟨rfl, hrest⟩ := List.cons.inj htail
            rw [pieces?_piece hspells, Option.isSome_map]
            exact ih hps hother.2 hrest

/-! ## Open elements -/

/-- The name of the element that a tag starts. -/
def tagName (tag : Text) : Text :=
  tag.takeWhile fun c => !isBlank c

/-- The elements that are open behind a piece. Nothing when it closes another element than the innermost
one. -/
def step? : List Text → Piece → Option (List Text)
  | within, .opening tag => some (tagName tag :: within)
  | within, .single _ => some within
  | within, .other => some within
  | [], .closing _ => none
  | innermost :: within, .closing name => if innermost = name then some within else none

/-- The elements that are open behind markup within others. -/
def nest? (within : List Text) (ps : List Piece) : Option (List Text) :=
  ps.foldlM step? within

/-- The elements that are open at the end of a text, innermost first. Nothing when it ends within a piece
of markup or closes an element that is not open. -/
def openAt? (t : Text) : Option (List Text) :=
  (pieces? t).bind (nest? [])

/-- Markup is whole, and every element that a text opens it closes again, in turn. -/
def WellFormed (t : Text) : Prop :=
  openAt? t = some []

instance (t : Text) : Decidable (WellFormed t) :=
  inferInstanceAs (Decidable (openAt? t = some []))

def Piece.tag? : Piece → Option Text
  | opening tag => some tag
  | single tag => some tag
  | closing _ => none
  | other => none

/-- The tags with which elements start, each with the elements around it. -/
def tagsIn (within : List Text) : List Piece → List (Text × List Text)
  | [] => []
  | p :: ps =>
    (p.tag?.map fun tag => (tag, within)).toList ++ tagsIn ((step? within p).getD within) ps

/-- The tags with which elements start in a text that stands within others. -/
def tagsOf (within : List Text) (t : Text) : List (Text × List Text) :=
  ((pieces? t).map (tagsIn within)).getD []

def tags (t : Text) : List (Text × List Text) :=
  tagsOf [] t

theorem nest?_cons (within : List Text) (p : Piece) (ps : List Piece) :
    nest? within (p :: ps) = (step? within p).bind (nest? · ps) :=
  List.foldlM_cons

theorem nest?_append (within : List Text) (ps qs : List Piece) :
    nest? within (ps ++ qs) = (nest? within ps).bind (nest? · qs) :=
  List.foldlM_append

theorem step?_outer {within within' : List Text} {p : Piece} (h : step? within p = some within')
    (outer : List Text) : step? (within ++ outer) p = some (within' ++ outer) := by
  cases p with
  | opening tag =>
      cases h
      rfl
  | single tag =>
      cases h
      rfl
  | other =>
      cases h
      rfl
  | closing name =>
      cases within with
      | nil => cases h
      | cons innermost within =>
          rw [step?] at h
          split at h
          · next hname =>
            cases h
            exact if_pos hname
          · cases h

/-- Markup does in any elements what it does on its own. -/
theorem nest?_outer {within within' : List Text} {ps : List Piece}
    (h : nest? within ps = some within') (outer : List Text) :
    nest? (within ++ outer) ps = some (within' ++ outer) := by
  induction ps generalizing within with
  | nil =>
      cases h
      rfl
  | cons p ps ih =>
      rw [nest?_cons] at h ⊢
      obtain ⟨next, hstep, hnext⟩ := Option.bind_eq_some_iff.mp h
      rw [step?_outer hstep]
      exact ih hnext

theorem tagsIn_outer {within within' : List Text} {ps : List Piece}
    (h : nest? within ps = some within') (outer : List Text) :
    tagsIn (within ++ outer) ps = (tagsIn within ps).map fun x => (x.1, x.2 ++ outer) := by
  induction ps generalizing within with
  | nil => rfl
  | cons p ps ih =>
      rw [nest?_cons] at h
      obtain ⟨next, hstep, hnext⟩ := Option.bind_eq_some_iff.mp h
      rw [tagsIn, tagsIn, step?_outer hstep, hstep, Option.getD_some, Option.getD_some, ih hnext,
        List.map_append]
      cases p.tag? <;> rfl

theorem tagsIn_append {within within' : List Text} {ps : List Piece}
    (h : nest? within ps = some within') (qs : List Piece) :
    tagsIn within (ps ++ qs) = tagsIn within ps ++ tagsIn within' qs := by
  induction ps generalizing within with
  | nil =>
      cases h
      rfl
  | cons p ps ih =>
      rw [nest?_cons] at h
      obtain ⟨next, hstep, hnext⟩ := Option.bind_eq_some_iff.mp h
      rw [List.cons_append, tagsIn, tagsIn, hstep, Option.getD_some, ih hnext, List.append_assoc]

/-! ## Texts put together -/

variable {a b u x : Text} {within : List Text}

theorem openAt?_append (ha : openAt? a = some within) (b : Text) :
    openAt? (a ++ b) = (pieces? b).bind (nest? within) := by
  obtain ⟨ps, hps, hnest⟩ := Option.bind_eq_some_iff.mp ha
  rw [openAt?, pieces?_append hps]
  cases pieces? b with
  | none => rfl
  | some qs =>
      show nest? [] (ps ++ qs) = nest? within qs
      rw [nest?_append, hnest]
      rfl

/-- A place between markup lies within elements of a well-formed text. -/
theorem exists_openAt? (h : WellFormed (a ++ b)) (ha : (pieces? a).isSome) :
    ∃ within, openAt? a = some within := by
  obtain ⟨ps, hps⟩ := Option.isSome_iff_exists.mp ha
  rw [WellFormed, openAt?, pieces?_append hps] at h
  obtain ⟨_, hall, hnest⟩ := Option.bind_eq_some_iff.mp h
  obtain ⟨qs, -, rfl⟩ := Option.map_eq_some_iff.mp hall
  rw [nest?_append] at hnest
  obtain ⟨within, hwithin, -⟩ := Option.bind_eq_some_iff.mp hnest
  exact ⟨within, by rw [openAt?, hps]; exact hwithin⟩

/-- Behind a text in which every element is closed, what was open before is open. -/
theorem openAt?_append_wellFormed (ha : openAt? a = some within) (hx : WellFormed x) :
    openAt? (a ++ x) = some within := by
  obtain ⟨ps, hps, hnest⟩ := Option.bind_eq_some_iff.mp hx
  rw [openAt?_append ha, hps]
  exact nest?_outer hnest within

/-- One such text can stand in the place of another. -/
theorem openAt?_edit (ha : openAt? a = some within) (hu : WellFormed u) (hx : WellFormed x)
    (b : Text) : openAt? (a ++ (x ++ b)) = openAt? (a ++ (u ++ b)) := by
  rw [← List.append_assoc, openAt?_append (openAt?_append_wellFormed ha hx), ← List.append_assoc,
    openAt?_append (openAt?_append_wellFormed ha hu)]

theorem wellFormed_nil : WellFormed [] := by
  rw [WellFormed, openAt?, pieces?_nil]
  rfl

theorem tagsOf_append (ha : openAt? a = some within) {qs : List Piece} (hb : pieces? b = some qs) :
    tags (a ++ b) = tags a ++ tagsOf within b := by
  obtain ⟨ps, hps, hnest⟩ := Option.bind_eq_some_iff.mp ha
  rw [tags, tags, tagsOf, tagsOf, tagsOf, pieces?_append hps, hps, hb]
  exact tagsIn_append hnest qs

/-- In elements, a text in which every element is closed has its tags, one level further in. -/
theorem tagsOf_wellFormed (hx : WellFormed x) (within : List Text) :
    tagsOf within x = (tags x).map fun y => (y.1, y.2 ++ within) := by
  obtain ⟨ps, hps, hnest⟩ := Option.bind_eq_some_iff.mp hx
  rw [tags, tagsOf, tagsOf, hps]
  exact tagsIn_outer hnest within

/-- The tags of a text around a part in which every element is closed. -/
theorem tags_edit (h : WellFormed (a ++ (x ++ b))) (ha : openAt? a = some within)
    (hx : WellFormed x) :
    tags (a ++ (x ++ b)) = tags a ++ (tagsOf within x ++ tagsOf within b) := by
  have hax := openAt?_append_wellFormed ha hx
  obtain ⟨ps, hps, -⟩ := Option.bind_eq_some_iff.mp hx
  have hb : ∃ qs, pieces? b = some qs := by
    rw [WellFormed, ← List.append_assoc, openAt?_append hax] at h
    obtain ⟨qs, hqs, -⟩ := Option.bind_eq_some_iff.mp h
    exact ⟨qs, hqs⟩
  obtain ⟨qs, hqs⟩ := hb
  rw [← List.append_assoc, tagsOf_append hax hqs, tagsOf_append ha hps, List.append_assoc]

/-- **The tags of a text that goes in** come to those of the text around it. -/
theorem tags_splice (h : WellFormed (a ++ b)) (ha : openAt? a = some within) (hx : WellFormed x) :
    (tags (a ++ (x ++ b))).Perm (((tags x).map fun y => (y.1, y.2 ++ within)) ++ tags (a ++ b)) := by
  have hout : WellFormed (a ++ (x ++ b)) := (openAt?_edit ha wellFormed_nil hx b).trans h
  have hempty : tags (a ++ b) = tags a ++ ([] ++ tagsOf within b) := by
    have hnil := tags_edit (x := []) h ha wellFormed_nil
    rwa [tagsOf, pieces?_nil] at hnil
  rw [tags_edit hout ha hx, tagsOf_wellFormed hx, hempty, List.nil_append, ← List.append_assoc,
    ← List.append_assoc]
  exact List.perm_append_comm.append_right _

/-! ## Tags as they are written -/

theorem takeTag?_plain {run : Text} (h : ∀ c ∈ run, c ∉ ("<>\"'" : Text)) (t : Text) :
    takeTag? none (run ++ t) = (takeTag? none t).map fun found => (run ++ found.1, found.2) := by
  induction run with
  | nil => simp
  | cons c run ih =>
      rw [List.forall_mem_cons] at h
      have hangle : c ≠ '<' := fun hc => h.1 (by rw [hc]; decide)
      have hend : ¬ (c = '>' ∧ (none : Option Char) = none) := fun hc => h.1 (by rw [hc.1]; decide)
      have hquote : c ∉ ("\"'" : Text) := fun hc => h.1 (List.mem_append_right "<>".toList hc)
      rw [List.cons_append, takeTag?, if_neg hangle, if_neg hend, quoteAfter, if_neg hquote, ih h.2,
        Option.map_map]
      rfl

theorem takeTag?_value {value : Text} (hquote : '"' ∉ value) (hangle : '<' ∉ value) (t : Text) :
    takeTag? (some '"') (value ++ '"' :: t) =
      (takeTag? none t).map fun found => (value ++ '"' :: found.1, found.2) := by
  induction value with
  | nil =>
      rw [List.nil_append, takeTag?, if_neg (by decide), if_neg (by simp), quoteAfter, if_pos rfl]
      rfl
  | cons c value ih =>
      rw [List.mem_cons, not_or] at hquote hangle
      rw [List.cons_append, takeTag?, if_neg (Ne.symm hangle.1), if_neg (by simp), quoteAfter,
        if_neg (Ne.symm hquote.1), ih hquote.2 hangle.2, Option.map_map]
      rfl

/-- A value in quotes may hold a bracket that would end the tag. -/
theorem takeTag?_quoted {value : Text} (hquote : '"' ∉ value) (hangle : '<' ∉ value) (t : Text) :
    takeTag? none ('"' :: (value ++ '"' :: t)) =
      (takeTag? none t).map fun found => ('"' :: (value ++ '"' :: found.1), found.2) := by
  rw [takeTag?, if_neg (by decide), if_neg (by decide), quoteAfter, if_pos (by decide),
    takeTag?_value hquote hangle, Option.map_map]
  rfl

/-- What starts with another character than a section does is read as a tag. -/
theorem takeInside?_tag {c : Char} (hc : c ∉ ("!?" : Text)) (t : Text) :
    takeInside? (c :: t) =
      (takeTag? none (c :: t)).bind fun found => (ofTag? found.1).map fun p => (p, found.2) := by
  have hsection : takeSection? (c :: t) = none := by
    rw [takeSection?_eq_none_iff]
    have hstarts : ∀ ends ∈ sections, ∃ d start, ends.1 = d :: start ∧ d ∈ ("!?" : Text) := by
      simp only [sections, List.forall_mem_cons]
      exact ⟨⟨'!', "--", rfl, by decide⟩, ⟨'!', "[CDATA[", rfl, by decide⟩, ⟨'?', [], rfl, by decide⟩,
        by simp⟩
    rintro ends hmem ⟨body, hbody⟩
    obtain ⟨d, start, hends, hd⟩ := hstarts ends hmem
    rw [hends] at hbody
    exact hc ((List.cons.inj hbody).1 ▸ hd)
  rw [takeInside?, hsection]

theorem spells_of_tag {c : Char} {r : Text} {p : Piece} (hc : c ∉ ("!?" : Text))
    (htag : ∀ s, takeTag? none (c :: r ++ '>' :: s) = some (c :: r, s))
    (hp : ofTag? (c :: r) = some p) : Spells (c :: r) p := by
  intro s
  rw [take?, if_pos rfl, List.cons_append, takeInside?_tag hc, ← List.cons_append, htag,
    Option.bind_some, hp]
  rfl

/-- A tag without values. -/
theorem spells_plain {tag : Text} {p : Piece} (h : ∀ c ∈ tag, c ∉ ("<>\"'!?" : Text))
    (hp : ofTag? tag = some p) : Spells tag p := by
  cases tag with
  | nil => cases hp
  | cons c r =>
      have hsub : ∀ {d : Char} {chars : Text}, chars ⊆ ("<>\"'!?" : Text) → d ∈ c :: r → d ∉ chars :=
        fun hchars hd hin => h _ hd (hchars hin)
      refine spells_of_tag (hsub (by decide) List.mem_cons_self) (fun s => ?_) hp
      rw [takeTag?_plain fun d hd => hsub (by decide) hd, takeTag?, if_neg (by decide),
        if_pos ⟨rfl, rfl⟩]
      simp

end Registrar.Markup
