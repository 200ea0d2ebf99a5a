import Registrar.Artifact.Literal
import Registrar.Proofs.Readings

/-!
# String literals in code

A string literal stands between double quotes on one line. In its body a backslash takes the next
character along, so that a quote behind a backslash does not end it. `StringLiteral.bodies` are the
literals of a text from left to right, and `StringLiteral.code` is the text without them. Whatever
text it is for, an escaped text is the body of a literal (`isBody_escape`), and it stands for the text
once its escapes are undone (`unescape?_escape`).
-/

namespace Registrar.StringLiteral

open Text

/-- What stands before the quote that ends a literal, and what follows it. -/
def takeBody? (escaped : Bool) : Text → Option (Text × Text)
  | [] => none
  | c :: r =>
    if c = '"' ∧ escaped = false then some ([], r)
    else if c = '\n' then none
    else (takeBody? (c == '\\' && !escaped) r).map fun found => (c :: found.1, found.2)

/-- A string literal at the front: its body, and the rest. -/
def take? : Text → Option (Text × Text)
  | [] => none
  | c :: r => if c = '"' then takeBody? false r else none

/-- The bodies of the string literals of a text. -/
def bodies (t : Text) : List Text :=
  t.findAll take?

/-- The text without its string literals. -/
def code (t : Text) : Text :=
  t.replaceAll (fun t => (take? t).map Prod.snd) []

/-- A text that a quote in front and one behind make a string literal. -/
def IsBody (body : Text) : Prop :=
  ∀ rest, takeBody? false (body ++ '"' :: rest) = some (body, rest)

/-- A literal on its own, between its quotes. -/
def between (body : Text) : Text :=
  '"' :: (body ++ ['"'])

theorem takeBody?_cons {escaped : Bool} {c : Char} (hquote : ¬ (c = '"' ∧ escaped = false))
    (hbreak : c ≠ '\n') (r : Text) : takeBody? escaped (c :: r) =
      (takeBody? (c == '\\' && !escaped) r).map fun found => (c :: found.1, found.2) := by
  rw [takeBody?, if_neg hquote, if_neg hbreak]

/-- A body ends at the first quote that it does not take along, whatever follows. -/
theorem of_takeBody? {escaped : Bool} {t body rest : Text}
    (h : takeBody? escaped t = some (body, rest)) :
    t = body ++ '"' :: rest ∧ ∀ s, takeBody? escaped (body ++ '"' :: s) = some (body, s) := by
  induction t generalizing escaped body with
  | nil => cases h
  | cons c r ih =>
      by_cases hquote : c = '"' ∧ escaped = false
      · rw [takeBody?, if_pos hquote] at h
        cases h
        exact ⟨by rw [hquote.1]; rfl, fun s => if_pos ⟨rfl, hquote.2⟩⟩
      · by_cases hbreak : c = '\n'
        · rw [takeBody?, if_neg hquote, if_pos hbreak] at h
          cases h
        · rw [takeBody?_cons hquote hbreak] at h
          obtain ⟨⟨tail, rest'⟩, htail, heq⟩ := Option.map_eq_some_iff.mp h
          cases heq
          obtain ⟨rfl, hagain⟩ := ih htail
          refine ⟨rfl, fun s => ?_⟩
          rw [List.cons_append, takeBody?_cons hquote hbreak, hagain]
          rfl

theorem take?_between {body : Text} (h : IsBody body) (rest : Text) :
    take? (between body ++ rest) = some (body, rest) := by
  have htext : between body ++ rest = '"' :: (body ++ '"' :: rest) := by simp [between]
  rw [htext, take?, if_pos rfl, h]

theorem of_take? {t body rest : Text} (h : take? t = some (body, rest)) :
    t = between body ++ rest ∧ IsBody body := by
  cases t with
  | nil => cases h
  | cons c r =>
      rw [take?] at h
      split at h
      · next hc =>
        obtain ⟨rfl, hbody⟩ := of_takeBody? h
        exact ⟨by simp [between, hc], hbody⟩
      · cases h

theorem between_ne_nil (body : Text) : between body ≠ [] :=
  List.cons_ne_nil _ _

theorem takesPiece_take? : TakesPiece take? := by
  intro t body rest h
  obtain ⟨heq, hbody⟩ := of_take? h
  exact ⟨between body, between_ne_nil body, heq, take?_between hbody⟩

/-- A text is gone through character by character, and literal by literal where there is one. -/
theorem literal_induction {motive : Text → Prop} (nil : motive [])
    (plain : ∀ c r, take? (c :: r) = none → motive r → motive (c :: r))
    (literal : ∀ body rest, IsBody body → motive rest → motive (between body ++ rest))
    (t : Text) : motive t := by
  induction t using takesPiece_take?.induction with
  | nil => exact nil
  | skip c r hnone ih => exact plain c r hnone ih
  | piece source body rest hne hsource ih =>
      obtain ⟨heq, hbody⟩ := of_take? (hsource [])
      rw [List.append_nil, List.append_nil] at heq
      rw [heq]
      exact literal body rest hbody ih

theorem bodies_cons {c : Char} {r : Text} (h : take? (c :: r) = none) : bodies (c :: r) = bodies r :=
  findAll_of_none h

theorem bodies_between {body : Text} (h : IsBody body) (rest : Text) :
    bodies (between body ++ rest) = body :: bodies rest :=
  TakesPiece.findAll_piece (between_ne_nil body) (take?_between h) rest

/-- A text without quotes has no literal, and moves those behind it on. -/
theorem bodies_append_of_notMem {s : Text} (h : '"' ∉ s) (t : Text) :
    bodies (s ++ t) = bodies t := by
  induction s with
  | nil => rfl
  | cons c s ih =>
      rw [List.mem_cons, not_or] at h
      rw [List.cons_append, bodies_cons (if_neg (Ne.symm h.1)), ih h.2]

theorem code_nil : code [] = [] := by
  rw [code, replaceAll]

theorem code_cons {c : Char} {r : Text} (h : take? (c :: r) = none) : code (c :: r) = c :: code r := by
  rw [code, replaceAll, h]
  rfl

theorem code_between {body : Text} (h : IsBody body) (rest : Text) :
    code (between body ++ rest) = code rest := by
  have hread := take?_between h rest
  have hlt : rest.length < (between body ++ rest).length := by simp [between]; omega
  obtain ⟨c, r, hcons⟩ := List.exists_cons_of_ne_nil
    (List.append_ne_nil_of_left_ne_nil (between_ne_nil body) rest)
  rw [hcons] at hread hlt ⊢
  rw [code, replaceAll, hread]
  exact if_pos hlt

/-! ## Escaped texts -/

theorem escape_cons (c : Char) (t : Text) :
    Artifact.escape (c :: t) = Artifact.escapeChar c ++ Artifact.escape t :=
  List.flatMap_cons

theorem takeBody?_escapeChar (c : Char) {t body rest : Text}
    (h : takeBody? false t = some (body, rest)) :
    takeBody? false (Artifact.escapeChar c ++ t) = some (Artifact.escapeChar c ++ body, rest) := by
  -- one character that stands for itself, or a backslash that takes one along
  have htwo : ∀ d, d ≠ '\n' →
      takeBody? false ('\\' :: d :: t) = some ('\\' :: d :: body, rest) := by
    intro d hd
    rw [takeBody?_cons (by decide) (by decide), takeBody?_cons (by simp) hd]
    simp [h]
  rw [Artifact.escapeChar]
  split
  · exact htwo _ (by decide)
  · split
    · exact htwo _ (by decide)
    · split
      · exact htwo _ (by decide)
      · next hbackslash hquote hbreak =>
        have hplain : (c == '\\') = false := beq_eq_false_iff_ne.mpr hbackslash
        rw [List.singleton_append, takeBody?_cons (fun hc => hquote hc.1) hbreak, hplain,
          Bool.false_and, h]
        rfl

/-- **An escaped text is the body of a literal**, whatever the text. -/
theorem isBody_escape (t : Text) : IsBody (Artifact.escape t) := by
  intro rest
  induction t with
  | nil => rfl
  | cons c t ih =>
      rw [escape_cons, List.append_assoc]
      exact takeBody?_escapeChar c ih

theorem bodies_quote_append (value rest : Text) :
    bodies (Artifact.quote value ++ rest) = Artifact.escape value :: bodies rest :=
  bodies_between (isBody_escape value) rest

/-! ## Undoing escapes -/

/-- The text that a body stands for, where a backslash and the first character of a row of the table
stand for the second. A body has no other backslashes, and quotes and line breaks only as escapes. -/
def unescape? (table : List (Char × Char)) : Text → Option Text
  | [] => some []
  | c :: r =>
    if c = '\\' then
      match r with
      | [] => none
      | e :: r => (table.lookup e).bind fun denoted => (unescape? table r).map (denoted :: ·)
    else if c = '"' ∨ c = '\n' then none
    else (unescape? table r).map (c :: ·)

/-- The escapes of an escaped text. -/
def writtenEscapes : List (Char × Char) :=
  [('\\', '\\'), ('"', '"'), ('n', '\n')]

theorem forall_mem_writtenEscapes {p : Char × Char → Prop} (hbackslash : p ('\\', '\\'))
    (hquote : p ('"', '"')) (hbreak : p ('n', '\n')) : ∀ row ∈ writtenEscapes, p row := by
  simp only [writtenEscapes, List.forall_mem_cons]
  exact ⟨hbackslash, hquote, hbreak, fun _ hnone => absurd hnone List.not_mem_nil⟩

theorem escapeChar_of_mem : ∀ row ∈ writtenEscapes, Artifact.escapeChar row.2 = ['\\', row.1] :=
  forall_mem_writtenEscapes rfl rfl rfl

theorem escapeChar_of_plain {c : Char} (hbackslash : c ≠ '\\') (hmark : ¬ (c = '"' ∨ c = '\n')) :
    Artifact.escapeChar c = [c] := by
  rw [not_or] at hmark
  rw [Artifact.escapeChar, if_neg hbackslash, if_neg hmark.1, if_neg hmark.2]

/-- A character is escaped by a row of the table, or stands for itself. -/
theorem exists_escape_or_plain (c : Char) :
    (∃ row ∈ writtenEscapes, row.2 = c) ∨ c ≠ '\\' ∧ ¬ (c = '"' ∨ c = '\n') := by
  by_cases hbackslash : c = '\\'
  · exact .inl ⟨('\\', '\\'), by simp [writtenEscapes], hbackslash.symm⟩
  · by_cases hquote : c = '"'
    · exact .inl ⟨('"', '"'), by simp [writtenEscapes], hquote.symm⟩
    · by_cases hbreak : c = '\n'
      · exact .inl ⟨('n', '\n'), by simp [writtenEscapes], hbreak.symm⟩
      · exact .inr ⟨hbackslash, not_or.mpr ⟨hquote, hbreak⟩⟩

/-- **An escaped text stands for the text**, by any table that has the escapes it is written with. -/
theorem unescape?_escape {table : List (Char × Char)}
    (htable : ∀ row ∈ writtenEscapes, table.lookup row.1 = some row.2) (t : Text) :
    unescape? table (Artifact.escape t) = some t := by
  induction t with
  | nil => rfl
  | cons c t ih =>
      rw [escape_cons]
      rcases exists_escape_or_plain c with ⟨row, hrow, rfl⟩ | ⟨hbackslash, hmark⟩
      · rw [escapeChar_of_mem row hrow, List.cons_append, List.singleton_append, unescape?.eq_def]
        simp only [if_true, htable row hrow, ih, Option.bind_some, Option.map_some]
      · rw [escapeChar_of_plain hbackslash hmark, List.singleton_append, unescape?.eq_def]
        simp only [if_neg hbackslash, if_neg hmark, ih, Option.map_some]

end Registrar.StringLiteral
