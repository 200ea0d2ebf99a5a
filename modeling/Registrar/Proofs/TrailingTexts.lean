import Registrar.Proofs.Brackets
import Registrar.Proofs.EnumerationItems

/-!
# Text behind an item

An annotation or the rest of an expression may stand behind an item, and is to be ignored. A text that
is meant to stand there has its round, square and curly brackets matched, and its commas inside them
(`Enclosed`). The pieces of a body are found with one depth for all brackets, angle brackets among them;
so such a text is ignored when its angle brackets leave no trace (`Settled`), as they do when they match
(`Enclosed.settled`), and not otherwise: behind any item, a text that is not settled changes what is
read of some enumeration (`exists_itemValues_ne`). A shift is such a text, and hides the next item.
-/

namespace Registrar.Text

/-- Before a comma, the first word of a text has at most the characters before the comma. -/
theorem length_le_of_takeWord?_trim {before after word rest : Text}
    (h : takeWord? (before ++ ',' :: after).trim = some (word, rest)) :
    word.length ≤ before.length := by
  have hword := isWord_of_takeWord? h
  -- the word stands at the front of the text, past white space before the comma
  obtain ⟨front, hfront, hlength⟩ : ∃ front, word <+: front ++ ',' :: after ∧
      front.length ≤ before.length := by
    have hprefix : word <+: (before ++ ',' :: after).trimStart := by
      have htrim := (trimEnd_isPrefix (before ++ ',' :: after).trimStart)
      rw [← trim, (eq_of_takeWord? h).1] at htrim
      exact (List.prefix_append word rest).trans htrim
    rw [trimStart, List.dropWhile_append] at hprefix
    split at hprefix
    · exact ⟨[], hprefix, Nat.zero_le _⟩
    · exact ⟨_, hprefix, length_dropWhile_le isBlank before⟩
  by_cases hle : word.length ≤ front.length
  · exact Nat.le_trans hle hlength
  · have hcomma : front ++ [','] <+: word := by
      refine List.prefix_of_prefix_length_le ?_ hfront (by simp; omega)
      exact ⟨after, by simp⟩
    have hmem : ',' ∈ word := hcomma.subset (by simp)
    exact absurd (hword ',' hmem) (by decide)

end Registrar.Text

namespace Registrar.Enumeration

open Text

/-- The pairs of brackets in which annotations and expressions nest. -/
def brackets : List (Char × Char) :=
  [('(', ')'), ('[', ']'), ('{', '}')]

/-- A text that is meant to stand behind an item: its brackets match, and every comma stands inside
some of them. -/
structure Enclosed (t : Text) : Prop where
  balanced : ∀ b ∈ brackets, Balanced b.1 b.2 t
  commas : ∀ n, t[n]? = some ',' →
    ∃ b ∈ brackets, (t.take n).count b.2 < (t.take n).count b.1

/-- Brackets match when a closer put behind the text is the one that is found. -/
theorem enclosed_iff {t : Text} : Enclosed t ↔
    (∀ b ∈ brackets, (t ++ [b.2]).balanced? b.1 b.2 = some (t, [])) ∧
      ∀ n < t.length, t[n]? = some ',' →
        ∃ b ∈ brackets, (t.take n).count b.2 < (t.take n).count b.1 := by
  have hne : ∀ b ∈ brackets, b.1 ≠ b.2 := by decide
  constructor
  · intro h
    exact ⟨fun b hb => (balanced?_eq_some_iff (hne b hb)).mpr ⟨rfl, h.balanced b hb⟩,
      fun n _ => h.commas n⟩
  · rintro ⟨hbalanced, hcommas⟩
    refine ⟨fun b hb => ((balanced?_eq_some_iff (hne b hb)).mp (hbalanced b hb)).2, fun n hn => ?_⟩
    exact hcommas n (List.getElem?_eq_some_iff.mp hn).1 hn

instance (t : Text) : Decidable (Enclosed t) :=
  decidable_of_iff _ enclosed_iff.symm

/-- Angle brackets leave no trace: as many are opened as closed, and no word stands behind a comma at
which the text is cut. -/
structure Settled (t : Text) : Prop where
  angles : t.count '<' = t.count '>'
  cuts : ∀ piece ∈ (splitCommas 0 t).tail, takeWord? piece.trim = none

/-- An item with a text behind it, and a blank between the two. -/
def Item.trailed (i : Item) : Option Text → Text
  | none => i.text
  | some t => i.text ++ ' ' :: t

variable {t : Text}

/-- Where the other brackets match, the depth counts the angle brackets. -/
theorem Enclosed.depth_eq (h : Enclosed t) : depth t = (t.count '<' : Int) - t.count '>' := by
  have hround := (h.balanced ('(', ')') (by simp [brackets])).whole
  have hsquare := (h.balanced ('[', ']') (by simp [brackets])).whole
  have hcurly := (h.balanced ('{', '}') (by simp [brackets])).whole
  rw [depth_eq_counts]
  dsimp only at hround hsquare hcurly
  omega

/-- **A text is settled when its angle brackets match too**, as they do where there are none. -/
theorem Enclosed.settled (h : Enclosed t) (hangles : Balanced '<' '>' t) : Settled t := by
  have hpieces : splitCommas 0 t = [t] := by
    apply splitCommas_eq_singleton
    intro before after ht
    have hfront : before <+: t := ⟨',' :: after, ht.symm⟩
    have hopen : ∃ b ∈ brackets, before.count b.2 < before.count b.1 := by
      have hcomma : t[before.length]? = some ',' := by simp [ht]
      have htake : t.take before.length = before := by simp [ht]
      simpa only [htake] using h.commas before.length hcomma
    have hround := (h.balanced ('(', ')') (by simp [brackets])).fronts before hfront
    have hsquare := (h.balanced ('[', ']') (by simp [brackets])).fronts before hfront
    have hcurly := (h.balanced ('{', '}') (by simp [brackets])).fronts before hfront
    have hangle := hangles.fronts before hfront
    rw [depth_eq_counts]
    simp only [brackets, List.mem_cons, List.not_mem_nil, or_false] at hopen
    obtain ⟨b, rfl | rfl | rfl, hlt⟩ := hopen <;> dsimp only at hlt hround hsquare hcurly <;> omega
  constructor
  · have := hangles.whole
    omega
  · rw [hpieces]
    exact fun piece hpiece => absurd hpiece List.not_mem_nil

/-! ## Texts that are ignored -/

theorem takeItem?_eq_none_iff : takeItem? t = none ↔ takeWord? t = none := by
  unfold takeItem?
  cases takeWord? t with
  | none => exact iff_of_true rfl rfl
  | some found => exact iff_of_false (Option.some_ne_none _) (Option.some_ne_none _)

/-- Nothing is assigned where no equals sign comes first. -/
theorem takeLiteral?_eq_none (h : t.trimStart.head? ≠ some '=') : takeLiteral? t = none := by
  have hnone : t.trimStart.takeChar? '=' = none := by
    cases hstart : t.trimStart with
    | nil => rfl
    | cons c r =>
        rw [hstart] at h
        exact if_neg fun hc => h (congrArg some hc)
  unfold takeLiteral?
  rw [hnone]
  rfl

namespace Item

variable (i : Item)

/-- What is read of an item with a text behind it: the item, and words behind the cuts in the text. -/
theorem readItems_trailed {first : Text} {rest : List Text} (ht : splitCommas 0 t = first :: rest) :
    readItems (i.trailed (some t)) =
      (i.name.text, i.assignment.elim (takeLiteral? (i.back ++ ' ' :: first).trimEnd)
        fun a => some a.assigned.literal) :: rest.filterMap fun piece => takeItem? piece.trim := by
  have hplain : ∀ c ∈ i.text ++ [' '], c ∉ cutMarks := by
    intro c hc
    rcases List.mem_append.mp hc with hc | hc
    · exact i.notMem_cutMarks c hc
    · rw [List.mem_singleton.mp hc]
      decide
  have hitem : splitCommas 0 (i.text ++ [' ']) = [] ++ [i.text ++ [' ']] :=
    splitCommas_of_notMem fun hmem => hplain ',' hmem (by decide)
  have hdepth : splitCommas (0 + depth (i.text ++ [' '])) t = first :: rest := by
    rw [depth_eq_zero hplain]
    exact ht
  have hpieces : splitCommas 0 (i.trailed (some t)) = (i.text ++ [' '] ++ first) :: rest := by
    have happend := splitCommas_append hitem hdepth
    rwa [List.append_assoc] at happend
  have hends : endsWord (i.back ++ ' ' :: first).trimEnd = true :=
    endsWord_of_isPrefix (trimEnd_isPrefix _) (endsWord_blanks_append i.back_blank rfl)
  have hfirst : takeItem? (i.text ++ [' '] ++ first).trim = some (i.name.text,
      i.assignment.elim (takeLiteral? (i.back ++ ' ' :: first).trimEnd)
        fun a => some a.assigned.literal) := by
    have htext : i.text ++ [' '] ++ first = i.front ++ (i.core ++ (i.back ++ ' ' :: first)) := by
      simp [text]
    rw [htext, trim_append, takeItem?_core i hends]
  rw [readItems, splitTopLevel, hpieces, List.map_cons, List.filterMap_cons_some hfirst,
    List.filterMap_map]
  rfl

/-- **A settled text is ignored** behind an item, unless it assigns something to a bare name. -/
theorem readItems_trailed_of_settled (ht : Settled t)
    (hassign : i.assignment = none → t.trimStart.head? ≠ some '=') :
    readItems (i.trailed (some t)) = [i.read] := by
  obtain ⟨first, rest, hpieces⟩ := List.exists_cons_of_ne_nil (splitCommas_ne_nil 0 t)
  have hrest : rest.filterMap (fun piece => takeItem? piece.trim) = [] := by
    rw [List.filterMap_eq_nil_iff]
    intro piece hpiece
    rw [takeItem?_eq_none_iff]
    exact ht.cuts piece (by rw [hpieces]; exact hpiece)
  rw [i.readItems_trailed hpieces, hrest, read]
  cases ha : i.assignment with
  | some a => rfl
  | none =>
      have hnone : takeLiteral? (i.back ++ ' ' :: first).trimEnd = none := by
        apply takeLiteral?_eq_none
        intro hequals
        -- white space before the text does not hide an equals sign at its front
        have hfront : (i.back ++ ' ' :: first).trimEnd <+: i.back ++ [' '] ++ t := by
          refine (trimEnd_isPrefix _).trans ?_
          rw [List.append_cons]
          exact (List.prefix_append_right_inj _).mpr (isPrefix_of_splitCommas hpieces)
        have hblank : ∀ c ∈ i.back ++ [' '], isBlank c = true := by
          intro c hc
          rcases List.mem_append.mp hc with hc | hc
          · exact i.back_blank c hc
          · exact isBlank_of_mem_space c hc
        have hstart := head?_trimStart_of_isPrefix hfront hequals
        rw [trimStart, List.dropWhile_append_of_pos hblank] at hstart
        exact hassign ha hstart
      rw [Option.elim_none, hnone]
      rfl

theorem depth_trailed : depth (i.trailed (some t)) = depth t := by
  have hblank : depthStep ' ' = 0 := by decide
  rw [trailed, depth_append, i.depth_text, depth_cons, hblank]
  omega

end Item

/-- A body with texts behind its items. -/
def trailedBody (items : List (Item × Option Text)) (ending : Ending) : Text :=
  body (items.map fun x => x.1.trailed x.2) ending

theorem readItems_trailedBody {items : List (Item × Option Text)} (ending : Ending)
    (h : ∀ x ∈ items, ∀ t, x.2 = some t → Enclosed t ∧ Settled t ∧
      (x.1.assignment = none → t.trimStart.head? ≠ some '=')) :
    readItems (trailedBody items ending) = items.map fun x => x.1.read := by
  have hpiece : ∀ x ∈ items,
      depth (x.1.trailed x.2) = 0 ∧ readItems (x.1.trailed x.2) = [x.1.read] := by
    rintro ⟨i, trail⟩ hx
    cases trail with
    | none => exact ⟨i.depth_text, i.readItems_text⟩
    | some t =>
        obtain ⟨henclosed, hsettled, hassign⟩ := h (i, some t) hx t rfl
        refine ⟨?_, i.readItems_trailed_of_settled hsettled hassign⟩
        have hangles := hsettled.angles
        rw [i.depth_trailed, henclosed.depth_eq]
        omega
  exact readItems_map hpiece ending

/-! ## Texts that are not -/

theorem map_fst_number (next : Int64) (items : List (Text × Option Literal)) :
    (number next items).map Prod.fst = items.map Prod.fst := by
  induction items generalizing next with
  | nil => rfl
  | cons item items ih =>
      obtain ⟨name, literal⟩ := item
      rw [number, List.map_cons, ih, List.map_cons]

theorem map_fst_itemValues (t : Text) :
    (itemValues t).map Prod.fst = (readItems t).map Prod.fst :=
  map_fst_number 0 _

/-- Behind a text that does not lead back to depth zero, a comma is no cut, and what follows it is not
read: all names are found in the text. -/
theorem length_le_of_mem_readItems {s q : Text} (hdepth : depth s ≠ 0) (hq : ',' ∉ q)
    {x : Text × Option Literal} (hx : x ∈ readItems (s ++ ',' :: q)) : x.1.length ≤ s.length := by
  obtain ⟨init, last, hs⟩ := exists_splitCommas_eq 0 s
  have hbehind : splitCommas (0 + depth s) (',' :: q) = [',' :: q] := by
    apply splitCommas_eq_singleton
    intro before after heq
    cases before with
    | nil => simpa using hdepth
    | cons c r =>
        obtain ⟨-, hr⟩ := List.cons.inj heq
        exact absurd (by rw [hr]; simp) hq
  have hpieces := splitCommas_append hs hbehind
  obtain ⟨piece, hpiece, hitem⟩ := List.mem_filterMap.mp hx
  obtain ⟨p, hp, rfl⟩ := List.mem_map.mp hpiece
  obtain ⟨⟨word, rest⟩, hword, hread⟩ := Option.bind_eq_some_iff.mp hitem
  cases hread
  have hlength : ∀ u ∈ splitCommas 0 s, u.length ≤ s.length :=
    fun u hu => length_le_of_mem_splitCommas hu
  rw [hs] at hlength
  rw [hpieces] at hp
  rcases List.mem_append.mp hp with hp | hp
  · have htrim : p.trim.length ≤ p.length :=
      Nat.le_trans (trimEnd_isPrefix _).length_le (length_dropWhile_le isBlank p)
    have hsplit := congrArg List.length (eq_of_takeWord? hword).1
    rw [List.length_append] at hsplit
    have hp := hlength p (List.mem_append_left _ hp)
    dsimp only
    omega
  · rw [List.mem_singleton.mp hp] at hword
    exact Nat.le_trans (length_le_of_takeWord?_trim hword)
      (hlength last (List.mem_append_right _ List.mem_cons_self))

/-- A name that is longer than a given length. -/
def longName (length : Nat) : Identifier where
  text := List.replicate (length + 1) 'B'
  ne_nil := by simp
  word := by
    intro c hc
    rw [List.eq_of_mem_replicate hc]
    decide
  start := by
    intro c hc
    cases hc
    decide

/-- An item that is nothing but a name. -/
def Item.bare (name : Identifier) : Item where
  front := []
  name := name
  assignment := none
  back := []
  front_blank := isBlank_of_mem_nil
  back_blank := isBlank_of_mem_nil

/-- Nothing behind the last item. -/
def Ending.empty : Ending where
  comma := false
  blanks := []
  blank := isBlank_of_mem_nil

/-- When the names are those of the item and of the next one, which is longer than what stands before
it, the text between them is settled. -/
theorem Enclosed.settled_of_names (h : Enclosed t) {i next : Item}
    (hlong : (i.trailed (some t)).length < next.name.text.length)
    (hnames : (readItems (i.trailed (some t) ++ ',' :: next.text)).map Prod.fst =
      [i.name.text, next.name.text]) : Settled t := by
  have hdepth : depth (i.trailed (some t)) = 0 := by
    -- otherwise the name of the next item would be found in the text before it
    refine Decidable.byContradiction fun hne => ?_
    have hmem : next.name.text ∈
        (readItems (i.trailed (some t) ++ ',' :: next.text)).map Prod.fst := by
      rw [hnames]
      exact List.mem_cons_of_mem _ List.mem_cons_self
    obtain ⟨x, hx, hname⟩ := List.mem_map.mp hmem
    have hle := length_le_of_mem_readItems hne
      (fun hcomma => next.notMem_cutMarks ',' hcomma (by decide)) hx
    rw [hname] at hle
    omega
  obtain ⟨first, rest, hpieces⟩ := List.exists_cons_of_ne_nil (splitCommas_ne_nil 0 t)
  have hrest : rest.filterMap (fun piece => takeItem? piece.trim) = [] := by
    -- both names are accounted for, so none is left for a word behind a cut
    have hlength := congrArg List.length hnames
    rw [readItems_append_comma hdepth, i.readItems_trailed hpieces, next.readItems_text] at hlength
    apply List.eq_nil_of_length_eq_zero
    simpa using hlength
  constructor
  · rw [i.depth_trailed, h.depth_eq] at hdepth
    omega
  · rw [hpieces]
    intro piece hpiece
    exact takeItem?_eq_none_iff.mp (List.filterMap_eq_nil_iff.mp hrest piece hpiece)

/-- **A text that is not settled is not ignored**, whatever item it stands behind: with it, another list
of items is read for some item that follows. -/
theorem exists_itemValues_ne (i : Item) (h : Enclosed t) (ht : ¬ Settled t) :
    ∃ next : Item, itemValues (trailedBody [(i, some t), (next, none)] .empty) ≠
      itemValues (body [i.text, next.text] .empty) := by
  let next := Item.bare (longName (i.trailed (some t)).length)
  have hlong : (i.trailed (some t)).length < next.name.text.length := by
    rw [show next.name.text.length = (i.trailed (some t)).length + 1 from List.length_replicate]
    exact Nat.lt_succ_self _
  have hbody : trailedBody [(i, some t), (next, none)] .empty =
      i.trailed (some t) ++ ',' :: next.text := by
    simp [trailedBody, body, joinWith, List.intercalate_cons_cons, Ending.text, Ending.empty,
      Item.trailed]
  have hplain : readItems (body [i.text, next.text] .empty) = [i.read, next.read] :=
    readItems_items [i, next] .empty
  refine ⟨next, fun heq => ht (h.settled_of_names hlong ?_)⟩
  rw [← hbody, ← map_fst_itemValues, heq, map_fst_itemValues, hplain]
  rfl

/-- **What stands behind items is ignored when its angle brackets leave no trace, and only then.** Settled
texts behind any of the items change nothing. A text whose angle brackets match is settled; behind the
same item, a text that is not changes what is read, for some item that follows. -/
theorem itemValues_trailed (items : List (Item × Option Text)) (ending : Ending)
    (henclosed : ∀ x ∈ items, ∀ t, x.2 = some t → Enclosed t)
    (hassign : ∀ x ∈ items, ∀ t, x.2 = some t → x.1.assignment = none →
      t.trimStart.head? ≠ some '=') :
    ((∀ x ∈ items, ∀ t, x.2 = some t → Settled t) →
      itemValues (trailedBody items ending) =
        itemValues (body (items.map fun x => x.1.text) ending)) ∧
    ∀ x ∈ items, ∀ t, x.2 = some t → (Balanced '<' '>' t → Settled t) ∧
      (¬ Settled t → ∃ next : Item,
        itemValues (trailedBody [(x.1, some t), (next, none)] .empty) ≠
          itemValues (body [x.1.text, next.text] .empty)) := by
  constructor
  · intro hsettled
    have htrailed := readItems_trailedBody ending fun x hx t ht =>
      ⟨henclosed x hx t ht, hsettled x hx t ht, hassign x hx t ht⟩
    have hplain := readItems_items (items.map Prod.fst) ending
    rw [List.map_map, List.map_map] at hplain
    exact congrArg (number 0) (htrailed.trans hplain.symm)
  · intro x hx t ht
    have h := henclosed x hx t ht
    exact ⟨h.settled, exists_itemValues_ne x.1 h⟩

/-- The item `A = 1`. -/
def assignedOne : Item where
  front := []
  name := ⟨"A", by decide, List.all_eq_true.mp (by decide), by rintro c ⟨⟩; decide⟩
  assignment := some ⟨" ", " ", .number ⟨false, [], .decimal, [(⟨1, by decide⟩, false)], [], isBlank_of_mem_nil,
    by decide, fun c hc => absurd hc List.not_mem_nil, by decide⟩, isBlank_of_mem_space,
    isBlank_of_mem_space⟩
  back := []
  front_blank := isBlank_of_mem_nil
  back_blank := isBlank_of_mem_nil

/-- The item `B`, behind a blank. -/
def bareSecond : Item where
  front := " "
  name := ⟨"B", by decide, List.all_eq_true.mp (by decide), by rintro c ⟨⟩; decide⟩
  assignment := none
  back := []
  front_blank := isBlank_of_mem_space
  back_blank := isBlank_of_mem_nil

theorem itemValues_trailed_annotation :
    itemValues (trailedBody [(assignedOne, some "UMETA(Hidden, x)"), (bareSecond, none)] .empty) =
      itemValues (body [assignedOne.text, bareSecond.text] .empty) := by
  have honly : ∀ x ∈ [(assignedOne, some "UMETA(Hidden, x)".toList), (bareSecond, none)], ∀ t,
      x.2 = some t → x.1 = assignedOne ∧ t = "UMETA(Hidden, x)" := by
    intro x hx t ht
    rcases List.mem_cons.mp hx with rfl | hx
    · exact ⟨rfl, (Option.some.inj ht).symm⟩
    · rw [List.mem_singleton.mp hx] at ht
      cases ht
  have hangles : Balanced '<' '>' "UMETA(Hidden, x)" :=
    ((balanced?_eq_some_iff (by decide)).mp
      (by decide : Text.balanced? '<' '>' ("UMETA(Hidden, x)" ++ ['>']) = some (_, []))).2
  obtain ⟨hsame, htexts⟩ := itemValues_trailed _ .empty
    (fun x hx t ht => (honly x hx t ht).2 ▸ (by decide : Enclosed "UMETA(Hidden, x)"))
    (fun x hx t ht hnone => by rw [(honly x hx t ht).1] at hnone; cases hnone)
  exact hsame fun x hx t ht => (htexts x hx t ht).1 ((honly x hx t ht).2 ▸ hangles)

/-- A shift is an expression whose angle brackets do not match: the item behind it is lost. -/
theorem shift_hides_item :
    Enclosed "<< 3" ∧
      trailedBody [(assignedOne, some "<< 3"), (bareSecond, none)] .empty = "A = 1 << 3, B" ∧
      itemValues "A = 1 << 3, B" = [(['A'], 1)] ∧
      itemValues (body [assignedOne.text, bareSecond.text] .empty) =
        [(['A'], 1), (['B'], 2)] := by
  refine ⟨by decide, by decide, by decide, by decide⟩

end Registrar.Enumeration
