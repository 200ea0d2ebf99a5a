import Registrar.Proofs.CommaPieces
import Registrar.Proofs.Sites

/-!
# Splitting undoes joining

One depth counts all four pairs of brackets, and it goes on over the commas where a text is cut. What
decides is therefore a matter of counts: `Level` says that a text opens as often as it closes, whichever
brackets and in whatever order, and a comma is a cut when the text before it is level (`topCommas`).

The number of pieces is counted from left to right along the places of a text, where the depth of a place
is that of the text before it (`length_splitCommas`). Pieces that are level and have no cut of their own
come back from the text that joins them.
-/

namespace Registrar.Text

variable {s t : Text}

/-! ## Counting brackets -/

/-- The brackets that a text opens, of all four pairs. -/
def opened (t : Text) : Nat :=
  t.count '<' + t.count '(' + t.count '[' + t.count '{'

/-- The brackets that a text closes, of all four pairs. -/
def closed (t : Text) : Nat :=
  t.count '>' + t.count ')' + t.count ']' + t.count '}'

/-- A text that opens as often as it closes: what stands behind it is at depth zero. -/
def Level (t : Text) : Prop :=
  opened t = closed t

instance (t : Text) : Decidable (Level t) :=
  inferInstanceAs (Decidable (opened t = closed t))

theorem level_iff : Level t ↔ depth t = 0 := by
  rw [Level, opened, closed, depth_eq_counts]
  omega

/-- The order of the brackets does not count. -/
theorem level_reverse_iff : Level t.reverse ↔ depth t = 0 := by
  simp only [← level_iff, Level, opened, closed, List.count_reverse]

/-- A comma stands behind the place, and the text before the place leads to depth zero. -/
def isTopComma (p : Place) : Bool :=
  p.after.head? == some ',' && decide (Level p.before.reverse)

/-- The commas of a text at depth zero, each as the place before it. -/
def topCommas (t : Text) : List Place :=
  t.places.filter isTopComma

/-- In a text that has no comma at depth zero, what stands before a comma is not level. -/
theorem not_level_of_topCommas_eq_nil (h : topCommas t = []) {before after : Text}
    (ht : t = before ++ ',' :: after) : ¬ Level before := by
  intro hlevel
  have hplace : ⟨before.reverse, ',' :: after⟩ ∈ t.places :=
    mem_placesFrom_iff.mpr ⟨before, ',' :: after, ht, by rw [List.append_nil]⟩
  apply List.filter_eq_nil_iff.mp h _ hplace
  simp [isTopComma, hlevel]

/-! ## Counting pieces -/

theorem length_splitCommas_cons {d : Int} {c : Char} (h : ¬ (c = ',' ∧ d = 0)) (r : Text) :
    (splitCommas d (c :: r)).length = (splitCommas (d + depthStep c) r).length := by
  obtain ⟨first, others, hr⟩ := List.exists_cons_of_ne_nil (splitCommas_ne_nil (d + depthStep c) r)
  rw [splitCommas, if_neg h, hr]
  rfl

/-- Behind a text, each comma at depth zero adds a piece. The depth of a text does not hang on the order
of its characters, so that what stands before a place may be read backwards. -/
theorem length_splitCommas (before t : Text) :
    (splitCommas (depth before) t).length = 1 + ((placesFrom before t).filter isTopComma).length := by
  induction t generalizing before with
  | nil => rfl
  | cons c r ih =>
      have hrest := ih (c :: before)
      rw [depth_cons, Int.add_comm] at hrest
      rw [placesFrom]
      by_cases hcut : c = ',' ∧ depth before = 0
      · obtain ⟨rfl, hzero⟩ := hcut
        have hcomma : depthStep ',' = 0 := by decide
        have hlevel := level_reverse_iff.mpr hzero
        rw [hcomma, hzero, Int.add_zero] at hrest
        rw [List.filter_cons_of_pos (by simp [isTopComma, hlevel]), splitCommas, if_pos ⟨rfl, hzero⟩, hzero,
          List.length_cons, List.length_cons, hrest]
        omega
      · rw [List.filter_cons_of_neg (by simpa [isTopComma, level_reverse_iff] using hcut),
          length_splitCommas_cons hcut, hrest]

/-- **Splitting undoes joining.** Pieces that open as often as they close and have no comma at depth
zero are what is found, trimmed, in the text that joins them by commas; there is at least one piece. And
any text has one piece more than it has commas at depth zero. -/
theorem splitTopLevel_undoes_joining :
    (∀ pieces : List Text, pieces ≠ [] → (∀ piece ∈ pieces, Level piece ∧ topCommas piece = []) →
      splitTopLevel (joinWith "," pieces) = pieces.map trim) ∧
    ∀ t : Text, (splitTopLevel t).length = 1 + (topCommas t).length := by
  constructor
  · intro pieces hne h
    have hdepth : ∀ piece ∈ pieces, depth piece = 0 :=
      fun piece hpiece => level_iff.mp (h piece hpiece).1
    have hwhole : ∀ piece ∈ pieces, splitCommas 0 piece = [piece] := by
      intro piece hpiece
      apply splitCommas_eq_singleton
      intro before after heq
      rw [Int.zero_add, ne_eq, ← level_iff]
      exact not_level_of_topCommas_eq_nil (h piece hpiece).2 heq
    rw [splitTopLevel, splitCommas_joinWith_eq_self hne hdepth hwhole]
  · intro t
    rw [splitTopLevel, List.length_map]
    exact length_splitCommas [] t

/-- Brackets of different pairs, closers before openers and commas below depth zero are all the same to
the depth. -/
theorem splitTopLevel_undoes_joining_crossed :
    let pieces : List Text := [" TMap<K, V] ", "), (", "", "\x7bf(a, b), 0\x7d"]
    let found : List Text := ["TMap<K, V]", "), (", "", "\x7bf(a, b), 0\x7d"]
    (pieces ≠ [] ∧ ∀ piece ∈ pieces, Level piece ∧ topCommas piece = []) ∧
    splitTopLevel " TMap<K, V] ,), (,,\x7bf(a, b), 0\x7d" = found := by
  intro pieces found
  have hlisted : ∀ piece ∈ pieces, Level piece ∧ topCommas piece = [] := by decide +kernel
  have hne : pieces ≠ [] := List.cons_ne_nil _ _
  have hjoined : joinWith "," pieces = " TMap<K, V] ,), (,,\x7bf(a, b), 0\x7d" := by decide +kernel
  have htrimmed : pieces.map trim = found := by decide +kernel
  have hsplit := splitTopLevel_undoes_joining.1 pieces hne hlisted
  rw [hjoined, htrimmed] at hsplit
  exact ⟨⟨hne, hlisted⟩, hsplit⟩

end Registrar.Text
