import Registrar.Text.CharClass

/-!
# Texts

A text is the list of its characters, so that a rule about texts is a recursion on lists. This
module holds the operations that every other part uses: trimming, splitting, searching, and the
measure of a text in bytes. Offsets that a user sees count bytes of the UTF-8 form.
-/

namespace Registrar

/-- A text is the list of its characters. -/
abbrev Text := List Char

instance : Coe String Text := ⟨String.toList⟩

namespace Text

/-- The number of bytes of the UTF-8 form. -/
def byteLength : Text → Nat
  | [] => 0
  | c :: r => c.utf8Size + byteLength r

/-- The rest of a text past its first `n` bytes; a character that is cut is left out. -/
def dropBytes : Nat → Text → Text
  | 0, t => t
  | _, [] => []
  | n + 1, c :: r => dropBytes (n + 1 - c.utf8Size) r

/-- The characters that start within the first `n` bytes. -/
def takeBytes : Nat → Text → Text
  | 0, _ => []
  | _, [] => []
  | n + 1, c :: r => c :: takeBytes (n + 1 - c.utf8Size) r

/-! ## Trimming -/

/-- A text without its leading white space. -/
def trimStart (t : Text) : Text :=
  t.dropWhile isBlank

/-- A text without its trailing white space. -/
def trimEnd (t : Text) : Text :=
  (t.reverse.dropWhile isBlank).reverse

/-- A text without white space at either end. -/
def trim (t : Text) : Text :=
  t.trimStart.trimEnd

/-- The longest tail whose characters all satisfy `p`, after what stands before it. -/
def splitTail (p : Char → Bool) (t : Text) : Text × Text :=
  ((t.reverse.dropWhile p).reverse, (t.reverse.takeWhile p).reverse)

/-! ## Splitting and joining -/

/-- The pieces between the characters that satisfy `p`; there is always at least one. -/
def splitWhere (p : Char → Bool) : Text → List Text
  | [] => [[]]
  | c :: r =>
    if p c then
      [] :: splitWhere p r
    else
      match splitWhere p r with
      | [] => [[c]]
      | piece :: pieces => (c :: piece) :: pieces

theorem splitWhere_ne_nil (p : Char → Bool) (t : Text) : splitWhere p t ≠ [] := by
  cases t with
  | nil => simp [splitWhere]
  | cons c r =>
      rw [splitWhere]
      split
      · simp
      · split <;> simp

/-- No piece holds a character at which the text is split. -/
theorem eq_false_of_mem_splitWhere {p : Char → Bool} {t piece : Text}
    (h : piece ∈ splitWhere p t) : ∀ c ∈ piece, p c = false := by
  induction t generalizing piece with
  | nil =>
      intro c hc
      simp [splitWhere] at h
      simp [h] at hc
  | cons c r ih =>
      rw [splitWhere] at h
      split at h
      · rcases List.mem_cons.mp h with rfl | h
        · simp
        · exact ih h
      · next hc =>
        split at h
        · intro d hd
          simp only [List.mem_singleton] at h
          subst h
          simp only [List.mem_singleton] at hd
          simpa [hd] using hc
        · next first others heq =>
          have hfirst : first ∈ splitWhere p r := heq ▸ List.mem_cons_self
          rcases List.mem_cons.mp h with rfl | h
          · intro d hd
            rcases List.mem_cons.mp hd with rfl | hd
            · simpa using hc
            · exact ih hfirst d hd
          · exact ih (heq ▸ List.mem_cons_of_mem _ h)

/-- The maximal runs of characters that are not white space. -/
def words (t : Text) : List Text :=
  (t.splitWhere isBlank).filter (· ≠ [])

/-- The pieces of a list with a separator between any two neighbours. -/
def joinWith (separator : Text) (pieces : List Text) : Text :=
  separator.intercalate pieces

/-! ## Searching -/

/-- Does the text start with `needle`? If so, what follows it? -/
def after? : (t needle : Text) → Option Text
  | t, [] => some t
  | [], _ :: _ => none
  | c :: r, n :: needle => if c = n then after? r needle else none

/-- What follows `needle` is what makes the text together with it. -/
theorem after?_eq_some_iff {t needle rest : Text} :
    t.after? needle = some rest ↔ t = needle ++ rest := by
  induction needle generalizing t with
  | nil => simp [after?]
  | cons n needle ih =>
      cases t with
      | nil => simp [after?]
      | cons c r =>
          by_cases h : c = n
          · simp [after?, h, ih]
          · simp [after?, h]

/-- Does `needle` occur in the text? -/
def occursIn (needle : Text) : (t : Text) → Bool
  | [] => needle.isEmpty
  | c :: r => needle.isPrefixOf (c :: r) || needle.occursIn r

/-- What occurs in a text is a stretch of it. -/
theorem occursIn_iff {needle t : Text} : needle.occursIn t = true ↔ needle <:+: t := by
  induction t with
  | nil => rw [occursIn, List.isEmpty_iff, List.infix_nil]
  | cons c r ih =>
      rw [occursIn, Bool.or_eq_true, List.isPrefixOf_iff_prefix, ih, List.infix_cons_iff]

/-- What stands before and after the first occurrence of `needle`. -/
def cut? : (t needle : Text) → Option (Text × Text)
  | [], needle => if needle.isEmpty then some ([], []) else none
  | c :: r, needle =>
    match after? (c :: r) needle with
    | some rest => some ([], rest)
    | none => (cut? r needle).map fun (before, rest) => (c :: before, rest)

/-- Everything that `read` gets past, from left to right and without overlap, gives way to
`replacement`. A reading that would not get ahead ends the search. -/
def replaceAll (t : Text) (read : Text → Option Text) (replacement : Text) : Text :=
  match t with
  | [] => []
  | c :: r =>
    match read (c :: r) with
    | none => c :: replaceAll r read replacement
    | some rest =>
      if rest.length < (c :: r).length then replacement ++ replaceAll rest read replacement
      else replacement ++ rest
termination_by t.length
decreasing_by
  · exact Nat.lt_succ_self r.length
  · assumption

/-- The text with ASCII capitals made small; other characters stay. -/
def lower (t : Text) : Text :=
  t.map Char.toLower

/-- Equality up to the case of ASCII letters. -/
def sameUpToCase (s t : Text) : Bool :=
  s.lower == t.lower

/-! ## Numbers -/

/-- The decimal form of a natural number. -/
def ofNat (n : Nat) : Text :=
  Nat.toDigits 10 n

/-- The decimal form of an integer, with a sign only where it is negative. -/
def ofInt : Int → Text
  | .ofNat n => ofNat n
  | .negSucc n => '-' :: ofNat (n + 1)

/-- A digit in a base up to sixteen, small where it is a letter. -/
def digit (n : Nat) : Char :=
  if n < 10 then Char.ofNat ('0'.toNat + n) else Char.ofNat ('a'.toNat + (n - 10))

/-- The value of a digit in a base up to sixteen, where letters may be small or capital. -/
def digitValue? (base : Nat) (c : Char) : Option Nat :=
  let n :=
    if '0' ≤ c ∧ c ≤ '9' then c.toNat - '0'.toNat
    else if 'a' ≤ c ∧ c ≤ 'f' then c.toNat - 'a'.toNat + 10
    else if 'A' ≤ c ∧ c ≤ 'F' then c.toNat - 'A'.toNat + 10
    else base
  if n < base then some n else none

/-- The number that a non-empty row of digits denotes. -/
def digitsValue? (base : Nat) (t : Text) : Option Nat :=
  if t = [] then none
  else t.foldlM (fun n c => (digitValue? base c).map (n * base + ·)) 0

/-! ## Reading from the front -/

/-- A text past its leading white space, of which there must be some. -/
def skipBlanks1? : Text → Option Text
  | [] => none
  | c :: r => if isBlank c then some (trimStart r) else none

/-- The non-empty run of word characters at the front, and the rest. -/
def takeWord? (t : Text) : Option (Text × Text) :=
  match t.takeWhile isWord with
  | [] => none
  | c :: w => some (c :: w, t.dropWhile isWord)

theorem length_dropWhile_le (p : Char → Bool) (t : Text) : (t.dropWhile p).length ≤ t.length :=
  (t.dropWhile_sublist p).length_le

/-- Reading a word gets ahead. -/
theorem length_lt_of_takeWord? {t w rest : Text} (h : takeWord? t = some (w, rest)) :
    rest.length < t.length := by
  cases t with
  | nil => simp [takeWord?] at h
  | cons c r =>
      by_cases hc : isWord c
      · simp only [takeWord?, List.takeWhile_cons, hc, if_true, Option.some.injEq,
          Prod.mk.injEq] at h
        rw [← h.2, List.dropWhile_cons_of_pos hc, List.length_cons]
        exact Nat.lt_succ_of_le (length_dropWhile_le isWord r)
      · simp [takeWord?, hc] at h

/-- The front of a text does not continue a word. -/
def endsWord : Text → Bool
  | [] => true
  | c :: _ => !isWord c

/-- `word` at the front, not continued by another word character; the rest. -/
def takeKeyword? (t word : Text) : Option Text :=
  match t.after? word with
  | some rest => if endsWord rest then some rest else none
  | none => none

/-- The number that the first `count` characters denote as hexadecimal digits; the rest. -/
def takeHex? (t : Text) (count : Nat) : Option (Nat × Text) :=
  if t.length < count then none
  else (digitsValue? 16 (t.take count)).map fun n => (n, t.drop count)

/-- A text whose next character is `c`, past it. -/
def takeChar? (c : Char) : Text → Option Text
  | [] => none
  | d :: r => if d = c then some r else none

end Text

end Registrar
