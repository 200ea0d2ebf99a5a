import Registrar.Enumeration
import Registrar.Proofs.CommaPieces

/-!
# The items of an enumeration

`Item` is an item as the documentation writes it: a name that is assigned a number, another name or
nothing, with white space wherever it may stand. A number has a sign, digits in one of two bases and a
suffix, and its magnitude stays below 2^63 (`Numeral`).

An item is read as its name and the literal that is assigned to it (`takeItem?_core`), and the literal
has the value of the number, in which nothing overflows (`Numeral.exists_value?`). Items with commas
between them are read one by one (`readItems_body`), so the values follow from the counter alone.
-/

namespace Registrar.Enumeration

open Text

/-! ## Numbers -/

/-- How a number is written: in decimal digits, or in hexadecimal digits behind a mark. -/
inductive Radix
  | decimal
  | hexadecimal (capital : Bool)

namespace Radix

def base : Radix → Nat
  | decimal => 10
  | hexadecimal _ => 16

def mark : Radix → Text
  | decimal => []
  | hexadecimal capital => if capital then "0X" else "0x"

end Radix

/-- A digit: its value, and whether it is capital where it is a letter. -/
abbrev Digit (base : Nat) := Fin base × Bool

/-- The character for a digit. -/
def Digit.char {base : Nat} (d : Digit base) : Char :=
  if d.2 then (Text.digit d.1).toUpper else Text.digit d.1

/-- The number that digits stand for, each with the weight of its place. -/
def placeValue {base : Nat} : List (Digit base) → Nat
  | [] => 0
  | d :: digits => d.1 * Nat.pow base digits.length + placeValue digits

/-- The letters of the suffixes that give the width of a number. -/
def suffixLetters : Text := "uUlL"

/-- A number as it is written. White space may stand behind the sign. -/
structure Numeral where
  negative : Bool
  gap : Text
  radix : Radix
  digits : List (Digit radix.base)
  suffix : Text
  gap_blank : ∀ c ∈ gap, isBlank c = true
  digits_ne_nil : digits ≠ []
  suffix_letters : ∀ c ∈ suffix, c ∈ suffixLetters
  magnitude_lt : placeValue digits < Nat.pow 2 63

namespace Numeral

variable (n : Numeral)

/-- The number behind its sign. -/
def word : Text :=
  n.radix.mark ++ (n.digits.map Digit.char ++ n.suffix)

def text : Text :=
  (if n.negative then '-' :: n.gap else []) ++ n.word

def value : Int :=
  if n.negative then -(placeValue n.digits : Int) else placeValue n.digits

end Numeral

/-! ## Items -/

/-- A name: word characters, of which the first is no decimal digit. -/
structure Identifier where
  text : Text
  ne_nil : text ≠ []
  word : ∀ c ∈ text, isWord c = true
  start : ∀ c, text.head? = some c → ¬ ('0' ≤ c ∧ c ≤ '9')

/-- What an item is assigned. -/
inductive Assigned
  | number (n : Numeral)
  | symbol (s : Identifier)

namespace Assigned

def text : Assigned → Text
  | number n => n.text
  | symbol s => s.text

/-- The literal that is read. -/
def literal : Assigned → Literal
  | number n => ⟨n.negative, n.word⟩
  | symbol s => ⟨false, s.text⟩

/-- The value of a number. Names have none. -/
def value? : Assigned → Option Int
  | number n => some n.value
  | symbol _ => none

end Assigned

/-- An assignment, with white space on both sides of its sign. -/
structure Assignment where
  before : Text
  after : Text
  assigned : Assigned
  before_blank : ∀ c ∈ before, isBlank c = true
  after_blank : ∀ c ∈ after, isBlank c = true

def Assignment.text (a : Assignment) : Text :=
  a.before ++ '=' :: (a.after ++ a.assigned.text)

/-- An item, with white space around it. -/
structure Item where
  front : Text
  name : Identifier
  assignment : Option Assignment
  back : Text
  front_blank : ∀ c ∈ front, isBlank c = true
  back_blank : ∀ c ∈ back, isBlank c = true

namespace Item

/-- The item without the white space around it. -/
def core (i : Item) : Text :=
  i.name.text ++ (i.assignment.elim [] Assignment.text)

def text (i : Item) : Text :=
  i.front ++ (i.core ++ i.back)

/-- The value that the item is given. -/
def value? (i : Item) : Option Int :=
  i.assignment.bind fun a => a.assigned.value?

end Item

/-- What follows the last item: white space, with or without a comma before it. -/
structure Ending where
  comma : Bool
  blanks : Text
  blank : ∀ c ∈ blanks, isBlank c = true

def Ending.text (e : Ending) : Text :=
  if e.comma then ',' :: e.blanks else e.blanks

/-- The body of an enumeration: pieces with commas between them, and the ending. -/
def body (pieces : List Text) (ending : Ending) : Text :=
  joinWith "," pieces ++ ending.text

/-- Values count on: an item without a value of its own has that of the item before it plus one, modulo
2^64 and signed. `next` is what an item at the front would have. -/
def counted (next : Int) : List Item → List (Text × Int)
  | [] => []
  | i :: items =>
    let value := i.value?.getD next
    (i.name.text, value) :: counted ((value + 1).bmod (Nat.pow 2 64)) items

/-! ## The value of a number -/

/-- The character of a digit has its value, and stands in words but in no suffix. -/
theorem Digit.char_facts (r : Radix) (d : Digit r.base) :
    digitValue? r.base d.char = some d.1.val ∧ isWord d.char = true ∧ d.char ∉ suffixLetters := by
  obtain ⟨⟨v, hv⟩, capital⟩ := d
  cases r with
  | decimal => cases capital <;> (revert v; decide)
  | hexadecimal mark => cases mark <;> cases capital <;> (revert v; decide)

/-- Digits are read from the front, and each shifts those before it by a place. -/
theorem foldlM_digits (r : Radix) (digits : List (Digit r.base)) (n : Nat) :
    (digits.map Digit.char).foldlM (fun n c => (digitValue? r.base c).map (n * r.base + ·)) n =
      some (n * Nat.pow r.base digits.length + placeValue digits) := by
  induction digits generalizing n with
  | nil => simp [placeValue]
  | cons d digits ih =>
      rw [List.map_cons, List.foldlM_cons, (Digit.char_facts r d).1]
      show List.foldlM _ (n * r.base + d.1.val) _ = _
      have hpower : Nat.pow r.base (digits.length + 1) = Nat.pow r.base digits.length * r.base := rfl
      rw [ih, List.length_cons, placeValue, hpower]
      congr 1
      grind

theorem digitsValue?_digits (r : Radix) {digits : List (Digit r.base)} (hne : digits ≠ []) :
    digitsValue? r.base (digits.map Digit.char) = some (placeValue digits) := by
  rw [digitsValue?, if_neg (by simpa using hne), foldlM_digits, Nat.zero_mul, Nat.zero_add]

namespace Numeral
variable (n : Numeral)

theorem unsuffixed_literal (negative : Bool) :
    Literal.unsuffixed ⟨negative, n.word⟩ = n.radix.mark ++ n.digits.map Digit.char := by
  have hsuffix : ∀ c ∈ n.suffix, decide (c ∈ ['u', 'U', 'l', 'L']) = true :=
    fun c hc => decide_eq_true (n.suffix_letters c hc)
  have hlast : ∀ c, (n.radix.mark ++ n.digits.map Digit.char).getLast? = some c →
      decide (c ∈ ['u', 'U', 'l', 'L']) = false := by
    intro c hc
    have hne : n.digits.map Digit.char ≠ [] := by simpa using n.digits_ne_nil
    rw [List.getLast?_append, List.getLast?_eq_some_getLast hne] at hc
    cases hc
    obtain ⟨d, -, hd⟩ := List.mem_map.mp (List.getLast_mem hne)
    rw [← hd]
    exact decide_eq_false (Digit.char_facts n.radix d).2.2
  have hword : n.word = n.radix.mark ++ n.digits.map Digit.char ++ n.suffix := by
    rw [word, List.append_assoc]
  show (n.word.splitTail fun c => decide (c ∈ ['u', 'U', 'l', 'L'])).1 = _
  rw [hword, splitTail_append hsuffix hlast]

theorem magnitude?_literal (negative : Bool) :
    Literal.magnitude? ⟨negative, n.word⟩ = some (placeValue n.digits) := by
  have hvalue := digitsValue?_digits n.radix n.digits_ne_nil
  unfold Literal.magnitude?
  rw [unsuffixed_literal]
  obtain ⟨_, _, radix, digits, _, _, hne, _, _⟩ := n
  cases radix with
  | decimal =>
      -- a decimal digit is no mark of another base
      have hmark : ∀ c ∈ digits.map Digit.char, digitValue? 10 c ≠ none := by
        intro c hc
        obtain ⟨d, -, rfl⟩ := List.mem_map.mp hc
        rw [show digitValue? 10 d.char = _ from (Digit.char_facts .decimal d).1]
        exact Option.some_ne_none _
      dsimp only at hvalue ⊢
      split
      · next rest heq =>
        exact absurd rfl (hmark 'x' (by rw [show digits.map Digit.char = _ from heq]; simp))
      · next rest heq =>
        exact absurd rfl (hmark 'X' (by rw [show digits.map Digit.char = _ from heq]; simp))
      · exact hvalue
  | hexadecimal capital =>
      cases capital with
      | false => exact hvalue
      | true => exact hvalue

/-- **A number has its value.** It fits into 64 bits with either sign, so neither the magnitude nor its
negation overflows. -/
theorem exists_value? : ∃ v, Literal.value? ⟨n.negative, n.word⟩ = some v ∧ v.toInt = n.value := by
  have hlt : placeValue n.digits < 9223372036854775808 := n.magnitude_lt
  rw [Literal.value?, n.magnitude?_literal]
  refine ⟨_, if_pos n.magnitude_lt, ?_⟩
  dsimp only
  rw [value]
  split
  · exact Int64.toInt_ofInt_of_le (by omega) (by omega)
  · exact Int64.toInt_ofInt_of_le (by omega) (by omega)

theorem word_ne_nil : n.word ≠ [] := by
  have hne := n.digits_ne_nil
  simp [word, hne]

theorem isWord_word : ∀ c ∈ n.word, isWord c = true := by
  have hmark : ∀ c ∈ n.radix.mark, isWord c = true := by
    cases n.radix with
    | decimal => exact List.all_eq_true.mp rfl
    | hexadecimal capital => cases capital <;> exact List.all_eq_true.mp (by decide)
  have hsuffix : ∀ c ∈ suffixLetters, isWord c = true := List.all_eq_true.mp (by decide)
  intro c hc
  rcases List.mem_append.mp hc with hc | hc
  · exact hmark c hc
  · rcases List.mem_append.mp hc with hc | hc
    · obtain ⟨d, -, rfl⟩ := List.mem_map.mp hc
      exact (Digit.char_facts n.radix d).2.1
    · exact hsuffix c (n.suffix_letters c hc)

end Numeral

theorem digitValue?_decimal_eq_none {c : Char} (h : ¬ ('0' ≤ c ∧ c ≤ '9')) :
    digitValue? 10 c = none := by
  unfold digitValue?
  dsimp only
  rw [if_neg h]
  refine if_neg ?_
  split
  · omega
  · split <;> omega

/-- A name is no number. -/
theorem Identifier.value?_literal (s : Identifier) (negative : Bool) :
    Literal.value? ⟨negative, s.text⟩ = none := by
  have hnone : Literal.magnitude? ⟨negative, s.text⟩ = none := by
    have hprefix : Literal.unsuffixed ⟨negative, s.text⟩ <+: s.text := by
      obtain ⟨tail, h⟩ := List.dropWhile_suffix (l := s.text.reverse)
        fun c => decide (c ∈ ['u', 'U', 'l', 'L'])
      refine ⟨tail.reverse, ?_⟩
      show (s.text.reverse.dropWhile fun c => decide (c ∈ ['u', 'U', 'l', 'L'])).reverse ++ _ = _
      rw [← List.reverse_append, h, List.reverse_reverse]
    have hstart : ∀ c r, Literal.unsuffixed ⟨negative, s.text⟩ = c :: r → ¬ ('0' ≤ c ∧ c ≤ '9') := by
      intro c r h
      obtain ⟨tail, htail⟩ := hprefix
      refine s.start c ?_
      rw [← htail, h]
      rfl
    unfold Literal.magnitude?
    split
    · next heq => exact absurd (by decide) (hstart _ _ heq)
    · next heq => exact absurd (by decide) (hstart _ _ heq)
    · cases hrest : Literal.unsuffixed ⟨negative, s.text⟩ with
      | nil => rfl
      | cons c r =>
          rw [digitsValue?, if_neg (List.cons_ne_nil c r), List.foldlM_cons,
            digitValue?_decimal_eq_none (hstart c r hrest)]
          rfl
  rw [Literal.value?, hnone]

/-! ## Reading an item -/

theorem takeLiteral?_negative {t r rest word more : Text} (hequals : t.trimStart = '=' :: r)
    (hminus : r.trimStart = '-' :: rest) (hword : rest.trimStart.takeWord? = some (word, more)) :
    takeLiteral? t = some ⟨true, word⟩ := by
  refine Option.bind_eq_some_iff.mpr ⟨r, by rw [hequals]; rfl, ?_⟩
  dsimp only
  rw [hminus]
  exact Option.bind_eq_some_iff.mpr ⟨_, hword, rfl⟩

theorem takeLiteral?_plain {t r word more : Text} (hequals : t.trimStart = '=' :: r)
    (hminus : r.trimStart.takeChar? '-' = none)
    (hword : r.trimStart.takeWord? = some (word, more)) :
    takeLiteral? t = some ⟨false, word⟩ := by
  refine Option.bind_eq_some_iff.mpr ⟨r, by rw [hequals]; rfl, ?_⟩
  dsimp only
  rw [hminus]
  exact Option.bind_eq_some_iff.mpr ⟨_, hword, rfl⟩

theorem takeChar?_minus_word {word : Text} (hne : word ≠ []) (hword : ∀ c ∈ word, isWord c = true)
    (rest : Text) : (word ++ rest).takeChar? '-' = none := by
  obtain ⟨c, r, rfl⟩ := List.exists_cons_of_ne_nil hne
  refine if_neg ?_
  rintro rfl
  exact absurd (hword '-' List.mem_cons_self) (by decide)

/-- What is assigned is read up to the end of its last word. -/
theorem takeLiteral?_assignment (a : Assignment) {rest : Text} (hrest : endsWord rest = true) :
    takeLiteral? (a.text ++ rest) = some a.assigned.literal := by
  have hequals : (a.text ++ rest).trimStart = '=' :: (a.after ++ (a.assigned.text ++ rest)) := by
    have htext : a.text ++ rest = a.before ++ '=' :: (a.after ++ (a.assigned.text ++ rest)) := by
      simp [Assignment.text]
    rw [htext, trimStart_blanks_append a.before_blank (by decide)]
  -- a word behind the sign is read in one way, whether a number or a name
  have hplain : ∀ word : Text, word ≠ [] → (∀ c ∈ word, isWord c = true) →
      a.assigned.text = word → takeLiteral? (a.text ++ rest) = some ⟨false, word⟩ := by
    intro word hne hword htext
    have htrim : (a.after ++ (a.assigned.text ++ rest)).trimStart = word ++ rest := by
      rw [htext, trimStart_word a.after_blank hne hword]
    apply takeLiteral?_plain hequals
    · rw [htrim, takeChar?_minus_word hne hword]
    · rw [htrim, takeWord?_append hne hword hrest]
  cases hassigned : a.assigned with
  | symbol s => exact hplain s.text s.ne_nil s.word (by rw [hassigned]; rfl)
  | number n =>
      cases hsign : n.negative with
      | false =>
          have htext : a.assigned.text = n.word := by
            rw [hassigned]
            show (if n.negative then '-' :: n.gap else []) ++ n.word = _
            rw [hsign]
            rfl
          rw [hplain n.word n.word_ne_nil n.isWord_word htext]
          show _ = some (Literal.mk n.negative n.word)
          rw [hsign]
      | true =>
          have htext : a.assigned.text ++ rest = '-' :: (n.gap ++ (n.word ++ rest)) := by
            rw [hassigned]
            show (if n.negative then '-' :: n.gap else []) ++ n.word ++ rest = _
            rw [hsign]
            simp
          have hread : takeLiteral? (a.text ++ rest) = some ⟨true, n.word⟩ := by
            apply takeLiteral?_negative hequals
            · rw [htext, trimStart_blanks_append a.after_blank (by decide)]
            · rw [trimStart_word n.gap_blank n.word_ne_nil n.isWord_word,
                takeWord?_append n.word_ne_nil n.isWord_word hrest]
          rw [hread]
          show _ = some (Literal.mk n.negative n.word)
          rw [hsign]

namespace Item

variable (i : Item)

/-- What is read of an item that stands on its own. -/
def read : Text × Option Literal :=
  (i.name.text, i.assignment.map fun a => a.assigned.literal)

theorem endsWord_assignment {rest : Text} (hrest : endsWord rest = true) :
    endsWord (i.assignment.elim [] Assignment.text ++ rest) = true := by
  cases i.assignment with
  | none => exact hrest
  | some a =>
      show endsWord (a.text ++ rest) = true
      rw [Assignment.text, List.append_assoc]
      exact endsWord_blanks_append a.before_blank rfl

/-- An item is read as its name and what is assigned to it; where nothing is, what stands behind the
item may be taken for an assignment. -/
theorem takeItem?_core {rest : Text} (hrest : endsWord rest = true) :
    takeItem? (i.core ++ rest) =
      some (i.name.text, i.assignment.elim (takeLiteral? rest) fun a => some a.assigned.literal) := by
  have hname : takeWord? (i.core ++ rest) =
      some (i.name.text, i.assignment.elim [] Assignment.text ++ rest) := by
    rw [core, List.append_assoc]
    exact takeWord?_append i.name.ne_nil i.name.word (i.endsWord_assignment hrest)
  refine Option.bind_eq_some_iff.mpr ⟨_, hname, ?_⟩
  dsimp only
  cases i.assignment with
  | none => rfl
  | some a =>
      show some (i.name.text, takeLiteral? (a.text ++ rest)) = _
      rw [takeLiteral?_assignment a hrest]
      rfl

/-- An item ends in a word character. -/
theorem exists_getLast?_core : ∃ c, i.core.getLast? = some c ∧ isBlank c = false := by
  have hword : ∃ t word, i.core = t ++ word ∧ word ≠ [] ∧ ∀ c ∈ word, isWord c = true := by
    cases hassignment : i.assignment with
    | none => exact ⟨[], i.name.text, by simp [core, hassignment], i.name.ne_nil, i.name.word⟩
    | some a =>
        cases hassigned : a.assigned with
        | symbol s =>
            refine ⟨i.name.text ++ (a.before ++ '=' :: a.after), s.text, ?_, s.ne_nil, s.word⟩
            simp [core, hassignment, Assignment.text, hassigned, Assigned.text]
        | number n =>
            refine ⟨i.name.text ++ (a.before ++ '=' :: (a.after ++
              if n.negative then '-' :: n.gap else [])), n.word, ?_, n.word_ne_nil, n.isWord_word⟩
            simp [core, hassignment, Assignment.text, hassigned, Assigned.text, Numeral.text]
  obtain ⟨t, word, hcore, hne, hchars⟩ := hword
  refine ⟨word.getLast hne, ?_, isBlank_eq_false_of_isWord (hchars _ (List.getLast_mem hne))⟩
  rw [hcore, List.getLast?_append, List.getLast?_eq_some_getLast hne]
  rfl

/-- White space around an item, and what stands behind it, is trimmed at the ends only. -/
theorem trim_append (rest : Text) :
    (i.front ++ (i.core ++ rest)).trim = i.core ++ rest.trimEnd := by
  obtain ⟨c, hlast, hc⟩ := i.exists_getLast?_core
  have hstart : (i.front ++ (i.core ++ rest)).trimStart = i.core ++ rest := by
    rw [core, List.append_assoc]
    exact trimStart_word i.front_blank i.name.ne_nil i.name.word _
  rw [trim, hstart, trimEnd_append hlast hc]

theorem takeItem?_trim : takeItem? i.text.trim = some i.read := by
  have hback : i.back.trimEnd = [] := trimEnd_append_space i.back_blank []
  rw [text, trim_append, hback, i.takeItem?_core rfl, read]
  cases i.assignment with
  | none => rfl
  | some a => rfl

/-- Neither a bracket nor a comma stands in an item. -/
theorem notMem_cutMarks : ∀ c ∈ i.text, c ∉ cutMarks := by
  have hassigned : ∀ a : Assigned, ∀ c ∈ a.text, c ∉ cutMarks := by
    intro a c hc
    cases a with
    | symbol s => exact notMem_cutMarks_of_isWord (s.word c hc)
    | number n =>
        rcases List.mem_append.mp hc with hc | hc
        · split at hc
          · rcases List.mem_cons.mp hc with rfl | hc
            · decide
            · exact notMem_cutMarks_of_isBlank (n.gap_blank c hc)
          · cases hc
        · exact notMem_cutMarks_of_isWord (n.isWord_word c hc)
  have hassignment : ∀ c ∈ i.assignment.elim [] Assignment.text, c ∉ cutMarks := by
    intro c hc
    cases ha : i.assignment with
    | none =>
        rw [ha] at hc
        cases hc
    | some a =>
        rw [ha] at hc
        rcases List.mem_append.mp hc with hc | hc
        · exact notMem_cutMarks_of_isBlank (a.before_blank c hc)
        · rcases List.mem_cons.mp hc with rfl | hc
          · decide
          · rcases List.mem_append.mp hc with hc | hc
            · exact notMem_cutMarks_of_isBlank (a.after_blank c hc)
            · exact hassigned a.assigned c hc
  intro c hc
  rcases List.mem_append.mp hc with hc | hc
  · exact notMem_cutMarks_of_isBlank (i.front_blank c hc)
  · rcases List.mem_append.mp hc with hc | hc
    · rcases List.mem_append.mp hc with hc | hc
      · exact notMem_cutMarks_of_isWord (i.name.word c hc)
      · exact hassignment c hc
    · exact notMem_cutMarks_of_isBlank (i.back_blank c hc)

end Item

/-! ## Reading a body -/

/-- The items that the pieces of a text are read as. -/
def readItems (t : Text) : List (Text × Option Literal) :=
  t.splitTopLevel.filterMap takeItem?

theorem readItems_append_comma {s : Text} (h : depth s = 0) (t : Text) :
    readItems (s ++ ',' :: t) = readItems s ++ readItems t := by
  have hcut := splitCommas_append_comma (d := 0) (s := s) (by omega) t
  rw [readItems, splitTopLevel, hcut, List.map_append, List.filterMap_append]
  rfl

theorem readItems_append_blanks {blanks : Text} (h : ∀ c ∈ blanks, isBlank c = true) (t : Text) :
    readItems (t ++ blanks) = readItems t := by
  obtain ⟨init, last, ht⟩ := exists_splitCommas_eq 0 t
  have hblanks : splitCommas (0 + depth t) blanks = [blanks] :=
    splitCommas_of_notMem fun hmem => notMem_cutMarks_of_isBlank (h _ hmem) (by decide)
  have happend := splitCommas_append ht hblanks
  rw [readItems, readItems, splitTopLevel, splitTopLevel, happend, ht, List.map_append,
    List.map_append, List.map_singleton, List.map_singleton, trim_append_space h]

theorem readItems_blanks {blanks : Text} (h : ∀ c ∈ blanks, isBlank c = true) :
    readItems blanks = [] := by
  have hread := readItems_append_blanks h []
  rwa [List.nil_append] at hread

theorem readItems_append_ending {t : Text} (h : depth t = 0) (ending : Ending) :
    readItems (t ++ ending.text) = readItems t := by
  unfold Ending.text
  split
  · rw [readItems_append_comma h, readItems_blanks ending.blank, List.append_nil]
  · exact readItems_append_blanks ending.blank t

/-- **Pieces are read one by one**, when each leads back to the depth at which it starts. -/
theorem readItems_body {pieces : List Text} (h : ∀ p ∈ pieces, depth p = 0) (ending : Ending) :
    readItems (body pieces ending) = pieces.flatMap readItems := by
  induction pieces with
  | nil => exact readItems_append_ending rfl ending
  | cons p pieces ih =>
      have hp := h p List.mem_cons_self
      cases pieces with
      | nil =>
          rw [body, joinWith, List.intercalate_singleton, readItems_append_ending hp]
          simp
      | cons q pieces =>
          have hbody : body (p :: q :: pieces) ending = p ++ ',' :: body (q :: pieces) ending := by
            simp [body, joinWith, List.intercalate_cons_cons]
          rw [hbody, readItems_append_comma hp, ih fun r hr => h r (List.mem_cons_of_mem _ hr)]
          rfl

/-- Pieces that are each read as one item are read as these items. -/
theorem readItems_map {α : Type} {write : α → Text} {read : α → Text × Option Literal}
    {items : List α} (h : ∀ a ∈ items, depth (write a) = 0 ∧ readItems (write a) = [read a])
    (ending : Ending) : readItems (body (items.map write) ending) = items.map read := by
  have hdepth : ∀ p ∈ items.map write, depth p = 0 := by
    intro p hp
    obtain ⟨a, ha, rfl⟩ := List.mem_map.mp hp
    exact (h a ha).1
  rw [readItems_body hdepth, List.flatMap_map, List.map_eq_flatMap]
  exact congrArg List.flatten (List.map_congr_left fun a ha => (h a ha).2)

/-- A text without brackets and commas is read as one item. -/
theorem readItems_of_plain {t : Text} {read : Text × Option Literal} (hplain : ∀ c ∈ t, c ∉ cutMarks)
    (hread : takeItem? t.trim = some read) : readItems t = [read] := by
  have hsplit : splitCommas 0 t = [t] :=
    splitCommas_of_notMem fun hmem => hplain _ hmem (by decide)
  rw [readItems, splitTopLevel, hsplit, List.map_singleton, List.filterMap_cons_some hread,
    List.filterMap_nil]

theorem Item.depth_text (i : Item) : depth i.text = 0 :=
  depth_eq_zero i.notMem_cutMarks

theorem Item.readItems_text (i : Item) : readItems i.text = [i.read] :=
  readItems_of_plain i.notMem_cutMarks i.takeItem?_trim

theorem readItems_items (items : List Item) (ending : Ending) :
    readItems (body (items.map Item.text) ending) = items.map Item.read :=
  readItems_map (fun i _ => ⟨i.depth_text, i.readItems_text⟩) ending

/-- The value that is read for an item is the one that it is given, or the counter. -/
theorem Item.toInt_value (i : Item) (next : Int64) :
    ((i.read.2.bind Literal.value?).getD next).toInt = i.value?.getD next.toInt := by
  unfold read value?
  cases i.assignment with
  | none => rfl
  | some a =>
      show (a.assigned.literal.value?.getD next).toInt = a.assigned.value?.getD next.toInt
      cases a.assigned with
      | number n =>
          obtain ⟨v, hv, hvalue⟩ := n.exists_value?
          show ((Literal.value? ⟨n.negative, n.word⟩).getD next).toInt = n.value
          rw [hv]
          exact hvalue
      | symbol s =>
          show ((Literal.value? ⟨false, s.text⟩).getD next).toInt = next.toInt
          rw [s.value?_literal]
          rfl

/-- Items are numbered as they count on. The counter holds what the next item would have, so it wraps
where the count does. -/
theorem number_read (next : Int64) (items : List Item) :
    (number next (items.map Item.read)).map (fun v => (v.1, v.2.toInt)) =
      counted next.toInt items := by
  induction items generalizing next with
  | nil => rfl
  | cons i items ih =>
      let value := (i.read.2.bind Literal.value?).getD next
      have hvalue : value.toInt = i.value?.getD next.toInt := i.toInt_value next
      have hnext : (value + 1).toInt = (value.toInt + 1).bmod (Nat.pow 2 64) := Int64.toInt_add value 1
      calc (number next ((i :: items).map Item.read)).map (fun v => (v.1, v.2.toInt))
          = (i.name.text, value.toInt) ::
              (number (value + 1) (items.map Item.read)).map (fun v => (v.1, v.2.toInt)) := rfl
        _ = (i.name.text, value.toInt) :: counted ((value.toInt + 1).bmod (Nat.pow 2 64)) items := by
              rw [ih, hnext]
        _ = counted next.toInt (i :: items) := by
              rw [hvalue]
              rfl

/-- **Items count on from the last number.** However the items are laid out, with or without a comma
behind the last, each is returned once and in order, with the value that the count gives it. -/
theorem itemValues_counted (items : List Item) (ending : Ending) :
    (itemValues (body (items.map Item.text) ending)).map (fun v => (v.1, v.2.toInt)) =
      counted 0 items := by
  show (number 0 (readItems (body (items.map Item.text) ending))).map _ = _
  rw [readItems_items]
  exact number_read 0 items

example : itemValues "A = 0x7fffFFFFffffFFFF,\nB , C=-\t2uL, D = A, E," =
    [(['A'], 9223372036854775807), (['B'], -9223372036854775808), (['C'], -2), (['D'], -1),
      (['E'], 0)] := by
  decide +kernel

end Registrar.Enumeration
