import Registrar.Attributes
import Registrar.Proofs.Readings
import Registrar.Proofs.Sites
import Registrar.Proofs.Words

/-!
# Attributes in quotes

A pair with its value in quotes is read as it is written, and the pairs behind it follow
(`pairs_quotedPair_append`). Between the quotes there is no flag, because flags are searched in the
text with blanks between its quotes (`flags_quotedPair`).
-/

namespace Registrar.Attributes

open Text

/-! ## Pairs -/

theorem takeSegment?_quoted {value : Text} (h : '"' ∉ value) (rest : Text) :
    takeSegment? ('"' :: (value ++ '"' :: rest)) = some (value, rest) := by
  rw [takeSegment?, if_pos rfl, dropWhile_ne_append h, takeWhile_ne_append h]

/-- A quoted segment of a value, with the white space in front of it. -/
structure Segment where
  gap : Text
  text : Text
  gap_blank : ∀ c ∈ gap, isBlank c = true
  plain : '"' ∉ text

/-- The segment as it is written. -/
def Segment.written (s : Segment) : Text :=
  s.gap ++ '"' :: (s.text ++ ['"'])

theorem Segment.trimStart_written (s : Segment) (rest : Text) :
    trimStart (s.written ++ rest) = '"' :: (s.text ++ '"' :: rest) := by
  have htext : s.written ++ rest = s.gap ++ '"' :: (s.text ++ '"' :: rest) := by
    simp [written]
  rw [htext, trimStart, List.dropWhile_append_of_pos s.gap_blank]
  rfl

/-- A row of segments is read up to its last quote, unless a further segment follows. -/
theorem takeSegments_written (segments : List Segment) {rest : Text}
    (hnext : takeSegment? rest.trimStart = none) :
    takeSegments (trimStart (segments.flatMap Segment.written ++ rest)) =
      (segments.flatMap Segment.text, rest.trimStart) := by
  induction segments with
  | nil =>
      show takeSegments rest.trimStart = ([], rest.trimStart)
      rw [takeSegments]
      split
      · rfl
      · next hsome => rw [hnext] at hsome; cases hsome
  | cons s segments ih =>
      rw [List.flatMap_cons, List.flatMap_cons, List.append_assoc, s.trimStart_written, takeSegments]
      split
      · next hnone => rw [takeSegment?_quoted s.plain] at hnone; cases hnone
      · next segment tail hsome =>
        rw [takeSegment?_quoted s.plain] at hsome
        cases hsome
        rw [ih]

theorem takePair?_written {key space rest : Text} (segments : List Segment) (hne : key ≠ [])
    (hkey : ∀ c ∈ key, isWord c = true) (hspace : ∀ c ∈ space, isBlank c = true)
    (hsegments : segments ≠ []) (hnext : takeSegment? rest.trimStart = none) :
    takePair? (key ++ (space ++ '=' :: (segments.flatMap Segment.written ++ rest))) =
      some ((key, segments.flatMap Segment.text), rest.trimStart) := by
  have hends : endsWord (space ++ '=' :: (segments.flatMap Segment.written ++ rest)) = true := by
    cases space with
    | nil => rfl
    | cons c r => simp [endsWord, isWord_eq_false_of_isBlank (hspace c List.mem_cons_self)]
  have hequals : trimStart (space ++ '=' :: (segments.flatMap Segment.written ++ rest)) =
      '=' :: (segments.flatMap Segment.written ++ rest) := by
    rw [trimStart, List.dropWhile_append_of_pos hspace]
    rfl
  have hread : takeValue? (trimStart (segments.flatMap Segment.written ++ rest)) =
      some (segments.flatMap Segment.text, rest.trimStart) := by
    have hquoted :
        (takeSegment? (trimStart (segments.flatMap Segment.written ++ rest))).isSome = true := by
      obtain ⟨s, others, rfl⟩ := List.exists_cons_of_ne_nil hsegments
      rw [List.flatMap_cons, List.append_assoc, s.trimStart_written, takeSegment?_quoted s.plain]
      rfl
    rw [takeValue?, if_pos hquoted, takeSegments_written segments hnext]
  rw [takePair?, takeWord?_append hne hkey hends]
  show (takeChar? '=' (trimStart (space ++ _))).bind _ = _
  rw [hequals]
  show (takeValue? (trimStart (segments.flatMap Segment.written ++ rest))).bind _ = _
  rw [hread]
  rfl

/-- A pair with its value in quotes, as it is written. -/
def quotedPair (key value : Text) : Text :=
  key ++ '=' :: '"' :: (value ++ ['"'])

/-- A pair with a quoted value comes first, and the pairs behind it follow. -/
theorem pairs_quotedPair_append {key value rest : Text} (hne : key ≠ [])
    (hkey : ∀ c ∈ key, isWord c = true) (hvalue : '"' ∉ value)
    (hnext : takeSegment? rest.trimStart = none) :
    pairs (quotedPair key value ++ rest) = (key, value) :: pairs rest.trimStart := by
  have hread : takePair? (quotedPair key value ++ rest) = some ((key, value), rest.trimStart) := by
    have hwritten := takePair?_written [⟨[], value, isBlank_of_mem_nil, hvalue⟩] hne hkey
      isBlank_of_mem_nil (List.cons_ne_nil _ _) hnext
    simpa [Segment.written, quotedPair] using hwritten
  refine findAll_of_some hread ?_
  have hle := length_dropWhile_le isBlank rest
  rw [trimStart, quotedPair]
  simp only [List.length_append, List.length_cons]
  omega

/-! ## Flags -/

theorem flagAt?_of_head {p : Place} {c : Char} (h : p.after.head? = some c)
    (hc : ('A' ≤ c && c ≤ 'Z') = false) : flagAt? p = none := by
  simp [flagAt?, h, hc]

theorem flagAt?_of_precedes {p : Place}
    (h : ((p.after.dropWhile isWord).dropWhile isAsciiBlank).head? = some '=') :
    flagAt? p = none := by
  simp [flagAt?, h]

/-- Outside quotes a text without a quote stays, inside quotes it becomes blank. -/
theorem blankQuoted_append {t : Text} (h : '"' ∉ t) (inside : Bool) (rest : Text) :
    blankQuoted inside (t ++ rest) =
      (if inside then t.map fun _ => ' ' else t) ++ blankQuoted inside rest := by
  induction t with
  | nil => cases inside <;> rfl
  | cons c r ih =>
      rw [List.mem_cons, not_or] at h
      rw [List.cons_append, blankQuoted, if_neg (Ne.symm h.1), ih h.2]
      cases inside <;> rfl

theorem blankQuoted_quotedPair {key value : Text} (hkey : '"' ∉ key) (hvalue : '"' ∉ value)
    (rest : Text) :
    blankQuoted false (quotedPair key value ++ rest) =
      quotedPair key (value.map fun _ => ' ') ++ blankQuoted false rest := by
  have htext : quotedPair key value ++ rest = key ++ '=' :: '"' :: (value ++ '"' :: rest) := by
    simp [quotedPair]
  rw [htext, blankQuoted_append hkey]
  show key ++ '=' :: '"' :: blankQuoted true (value ++ '"' :: rest) = _
  rw [blankQuoted_append hvalue]
  show key ++ '=' :: '"' :: (value.map (fun _ => ' ') ++ '"' :: blankQuoted false rest) = _
  simp [quotedPair]

/-- A row without a capital letter has no flag in it. -/
theorem flags_row {row : Text} (h : ∀ c ∈ row, ('A' ≤ c && c ≤ 'Z') = false)
    (before after : Text) : (placesWithin before row after).filterMap flagAt? = [] := by
  refine List.filterMap_eq_nil_iff.mpr fun p hp => ?_
  obtain ⟨s, t, rfl, ht, rfl⟩ := mem_placesWithin_iff.mp hp
  obtain ⟨c, t, rfl⟩ := List.exists_cons_of_ne_nil ht
  exact flagAt?_of_head rfl (h c (List.mem_append_right _ List.mem_cons_self))

/-- A pair with blanks between its quotes has no flag in it. -/
theorem flags_quotedPair {key value : Text} (hkey : ∀ c ∈ key, isWord c = true)
    (hvalue : ∀ c ∈ value, c = ' ') (before after : Text) :
    (placesWithin before (quotedPair key value) after).filterMap flagAt? = [] := by
  have hrow : ∀ c ∈ '=' :: '"' :: (value ++ ['"']), ('A' ≤ c && c ≤ 'Z') = false := by
    intro c hc
    simp only [List.mem_cons, List.mem_append, List.not_mem_nil, or_false] at hc
    rcases hc with rfl | rfl | hc | rfl
    · decide
    · decide
    · rw [hvalue c hc]
      decide
    · decide
  rw [quotedPair, placesWithin_append, List.filterMap_append, flags_row hrow, List.append_nil]
  -- a word of the key runs to the equals sign
  refine List.filterMap_eq_nil_iff.mpr fun p hp => ?_
  obtain ⟨s, t, rfl, -, rfl⟩ := mem_placesWithin_iff.mp hp
  refine flagAt?_of_precedes ?_
  show List.head? (((t ++ _).dropWhile isWord).dropWhile isAsciiBlank) = some '='
  rw [List.dropWhile_append_of_pos fun c hc => hkey c (List.mem_append_right _ hc)]
  rfl

end Registrar.Attributes
