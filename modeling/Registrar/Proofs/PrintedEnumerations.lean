import Mathlib.Data.List.Chain
import Registrar.Proofs.EnumerationItems
import Registrar.Proofs.JsonRoundTrip

/-!
# Printed values are read back

The value of an item is printed in decimal digits, behind a sign where it is negative. It is read by its
magnitude first, and the magnitude of the least number is one that no number has. So the least number is
the only one that is not read back (`Literal.value?_ofInt64`), and an item that is assigned it takes the
count of the items before it instead (`recounted`). What is read is what was printed exactly when the
count is right for all these items, and it is where the item before holds the largest number, from which
the count wraps round.
-/

namespace Registrar.Text

theorem ofInt_eq (n : Int) :
    ofInt n = if n < 0 then '-' :: ofNat n.natAbs else ofNat n.natAbs := by
  cases n with
  | ofNat n => exact (if_neg (Int.not_lt.mpr (Int.natCast_nonneg n))).symm
  | negSucc n => exact (if_pos (Int.negSucc_lt_zero n)).symm

theorem isWord_of_isDigit {c : Char} (h : c.isDigit = true) : isWord c = true := by
  have hascii : c.toNat < 0x80 :=
    Nat.lt_of_le_of_lt (UInt32.le_iff_toNat_le.mp (of_decide_eq_true (Bool.and_eq_true_iff.mp h).2))
      (by decide)
  have halphanum : isAsciiAlphanumeric c = true := Bool.or_eq_true_iff.mpr (Or.inr h)
  simp only [isWord, hascii, if_true, halphanum, Bool.true_or]

theorem isWord_of_mem_ofNat {n : Nat} : ∀ c ∈ ofNat n, isWord c = true :=
  fun _ hc => isWord_of_isDigit (isDigit_of_mem_ofNat hc)

end Registrar.Text

namespace Registrar.Enumeration

open Text

/-! ## The value of a printed number -/

namespace Literal

/-- The literal that a number is printed as. -/
def ofInt64 (v : Int64) : Literal :=
  ⟨decide (v.toInt < 0), ofNat v.toInt.natAbs⟩

/-- Decimal digits end in no suffix and bear no mark of another base. -/
theorem magnitude?_digits (negative : Bool) (n : Nat) : magnitude? ⟨negative, ofNat n⟩ = some n := by
  have hdigit : ∀ c ∈ ofNat n, c.isDigit = true := fun _ hc => isDigit_of_mem_ofNat hc
  have hsuffix : unsuffixed ⟨negative, ofNat n⟩ = ofNat n := by
    have hlast : ∀ c, (ofNat n).getLast? = some c → decide (c ∈ ['u', 'U', 'l', 'L']) = false :=
      fun c hc => decide_eq_false
        (notMem_of_class (by decide) (hdigit c (List.mem_of_getLast? hc)))
    have hsplit : splitTail _ (ofNat n ++ []) = (ofNat n, []) :=
      splitTail_append (fun c hc => by cases hc) hlast
    rw [List.append_nil] at hsplit
    exact congrArg Prod.fst hsplit
  unfold magnitude?
  rw [hsuffix]
  split
  · next rest heq => exact absurd (hdigit 'x' (by simp [heq])) (by decide)
  · next rest heq => exact absurd (hdigit 'X' (by simp [heq])) (by decide)
  · exact digitsValue?_ofNat n

/-- **All numbers but the least are read back.** -/
theorem value?_ofInt64 (v : Int64) :
    (ofInt64 v).value? = if v = Int64.minValue then none else some v := by
  rw [ofInt64, value?, magnitude?_digits]
  dsimp only
  by_cases hmin : v = Int64.minValue
  · rw [hmin]
    decide
  · have hne : v.toInt ≠ -9223372036854775808 :=
      fun h => hmin (Int64.toInt_inj.mp (h.trans Int64.toInt_minValue.symm))
    have hle : -9223372036854775808 ≤ v.toInt := v.le_toInt
    have hlt : v.toInt < 9223372036854775808 := v.toInt_lt
    have hmagnitude : v.toInt.natAbs < 9223372036854775808 := by omega
    rw [if_neg hmin]
    refine (if_pos hmagnitude).trans (congrArg some ?_)
    split
    · next hneg =>
      have hvalue : -(v.toInt.natAbs : Int) = v.toInt := by
        have := of_decide_eq_true hneg
        omega
      rw [hvalue, Int64.ofInt_toInt]
    · next hneg =>
      have hvalue : (v.toInt.natAbs : Int) = v.toInt := by
        have : ¬ v.toInt < 0 := fun h => hneg (decide_eq_true h)
        omega
      rw [hvalue, Int64.ofInt_toInt]

end Literal

/-! ## Reading a printed item -/

/-- An item that is assigned its value, with white space in front. -/
structure ValuedItem where
  gap : Text
  name : Identifier
  value : Int64
  gap_blank : ∀ c ∈ gap, isBlank c = true

namespace ValuedItem

variable (i : ValuedItem)

def pair : Text × Int64 :=
  (i.name.text, i.value)

/-- The item without the white space in front. The value has the decimal form of registration calls. -/
def core : Text :=
  i.name.text ++ (" = ".toList ++ ofInt i.value.toInt)

def text : Text :=
  i.gap ++ i.core

/-- What is read of the item. -/
def read : Text × Option Literal :=
  (i.name.text, some (Literal.ofInt64 i.value))

/-- A printed number is read as a literal with its sign and its digits. -/
theorem takeLiteral?_printed (v : Int64) :
    takeLiteral? (" = ".toList ++ ofInt v.toInt) = some (Literal.ofInt64 v) := by
  have hequals : trimStart (" = ".toList ++ ofInt v.toInt) = '=' :: ' ' :: ofInt v.toInt :=
    trimStart_blanks_append isBlank_of_mem_space (by decide) _
  have hne : ofNat v.toInt.natAbs ≠ [] := Nat.toDigits_ne_nil
  have hword : takeWord? (ofNat v.toInt.natAbs ++ []) = some (ofNat v.toInt.natAbs, []) :=
    takeWord?_append hne isWord_of_mem_ofNat rfl
  have htrim : ∀ gap : Text, (∀ c ∈ gap, isBlank c = true) →
      trimStart (gap ++ (ofNat v.toInt.natAbs ++ [])) = ofNat v.toInt.natAbs ++ [] :=
    fun gap hgap => trimStart_word hgap hne isWord_of_mem_ofNat []
  rw [List.append_nil] at hword htrim
  rw [Literal.ofInt64]
  by_cases hneg : v.toInt < 0
  · rw [ofInt_eq, if_pos hneg] at hequals ⊢
    rw [decide_eq_true hneg]
    have hdigits : trimStart (ofNat v.toInt.natAbs) = ofNat v.toInt.natAbs :=
      htrim [] isBlank_of_mem_nil
    apply takeLiteral?_negative hequals
    · exact trimStart_blanks_append isBlank_of_mem_space (by decide) _
    · rw [hdigits, hword]
  · rw [ofInt_eq, if_neg hneg] at hequals ⊢
    rw [decide_eq_false hneg]
    have hdigits : trimStart (' ' :: ofNat v.toInt.natAbs) = ofNat v.toInt.natAbs :=
      htrim [' '] isBlank_of_mem_space
    have hminus : takeChar? '-' (ofNat v.toInt.natAbs ++ []) = none :=
      takeChar?_minus_word hne isWord_of_mem_ofNat []
    rw [List.append_nil] at hminus
    apply takeLiteral?_plain hequals
    · rw [hdigits, hminus]
    · rw [hdigits, hword]

theorem takeItem?_core : takeItem? i.core = some i.read := by
  have hname : takeWord? i.core = some (i.name.text, " = ".toList ++ ofInt i.value.toInt) :=
    takeWord?_append i.name.ne_nil i.name.word rfl
  refine Option.bind_eq_some_iff.mpr ⟨_, hname, ?_⟩
  show some (i.name.text, takeLiteral? _) = _
  rw [takeLiteral?_printed]
  rfl

/-- A printed item ends in a digit. -/
theorem trim_text : i.text.trim = i.core := by
  have hstart : i.text.trimStart = i.core :=
    trimStart_word i.gap_blank i.name.ne_nil i.name.word _
  have hne : ofNat i.value.toInt.natAbs ≠ [] := Nat.toDigits_ne_nil
  have hdigits : ∃ front, i.core = front ++ ofNat i.value.toInt.natAbs := by
    rw [core, ofInt_eq]
    split
    · exact ⟨i.name.text ++ " = -".toList, by simp⟩
    · exact ⟨i.name.text ++ " = ".toList, by simp⟩
  obtain ⟨front, hcore⟩ := hdigits
  rw [trim, hstart]
  apply trimEnd_eq_self
  intro c hc
  rw [hcore, List.getLast?_append, List.getLast?_eq_some_getLast hne] at hc
  cases hc
  exact isBlank_eq_false_of_isWord (isWord_of_mem_ofNat _ (List.getLast_mem hne))

/-- Neither a bracket nor a comma stands in a printed item. -/
theorem notMem_cutMarks_text : ∀ c ∈ i.text, c ∉ cutMarks := by
  have hnumber : ∀ c ∈ ofInt i.value.toInt, c ∉ cutMarks := by
    have hdigits : ∀ c ∈ ofNat i.value.toInt.natAbs, c ∉ cutMarks :=
      fun c hc => notMem_cutMarks_of_isWord (isWord_of_mem_ofNat c hc)
    rw [ofInt_eq]
    split
    · exact List.forall_mem_cons.mpr ⟨by decide, hdigits⟩
    · exact hdigits
  refine List.forall_mem_append.mpr ⟨fun c hc => notMem_cutMarks_of_isBlank (i.gap_blank c hc), ?_⟩
  refine List.forall_mem_append.mpr ⟨fun c hc => notMem_cutMarks_of_isWord (i.name.word c hc), ?_⟩
  exact List.forall_mem_append.mpr ⟨forall_mem_of_all (by decide), hnumber⟩

theorem readItems_printed (items : List ValuedItem) (ending : Ending) :
    readItems (body (items.map text) ending) = items.map read := by
  refine readItems_map (fun i _ => ⟨depth_eq_zero i.notMem_cutMarks_text, ?_⟩) ending
  refine readItems_of_plain i.notMem_cutMarks_text ?_
  rw [trim_text, takeItem?_core]

end ValuedItem

/-! ## The values that are read -/

/-- The values of printed items as they are read. An item with the least number takes the count. -/
def recounted (next : Int64) : List ValuedItem → List (Text × Int64)
  | [] => []
  | i :: items =>
    let value := if i.value = Int64.minValue then next else i.value
    (i.name.text, value) :: recounted (value + 1) items

theorem number_printed (next : Int64) (items : List ValuedItem) :
    number next (items.map ValuedItem.read) = recounted next items := by
  induction items generalizing next with
  | nil => rfl
  | cons i items ih =>
      let value := ((Literal.ofInt64 i.value).value?).getD next
      have hvalue : value = if i.value = Int64.minValue then next else i.value := by
        show ((Literal.ofInt64 i.value).value?).getD next = _
        rw [Literal.value?_ofInt64]
        split <;> rfl
      show (i.name.text, value) :: number (value + 1) (items.map ValuedItem.read) = _
      rw [ih, hvalue]
      rfl

/-- An item keeps its value when the count is right for it, and the count goes on from the value. -/
theorem recounted_cons_eq_iff (next : Int64) (i : ValuedItem) (items : List ValuedItem) :
    recounted next (i :: items) = (i :: items).map ValuedItem.pair ↔
      (i.value = Int64.minValue → next = Int64.minValue) ∧
        recounted (i.value + 1) items = items.map ValuedItem.pair := by
  let value := if i.value = Int64.minValue then next else i.value
  have hkept : value = i.value ↔ (i.value = Int64.minValue → next = Int64.minValue) := by
    show (if i.value = Int64.minValue then next else i.value) = i.value ↔ _
    by_cases hmin : i.value = Int64.minValue
    · simp [hmin]
    · simp [hmin]
  show (i.name.text, value) :: recounted (value + 1) items =
    (i.name.text, i.value) :: items.map ValuedItem.pair ↔ _
  rw [List.cons.injEq, Prod.mk.injEq, ← hkept]
  constructor
  · rintro ⟨⟨-, hvalue⟩, hrest⟩
    rw [hvalue] at hrest
    exact ⟨hvalue, hrest⟩
  · rintro ⟨hvalue, hrest⟩
    rw [hvalue]
    exact ⟨⟨rfl, rfl⟩, hrest⟩

/-- The count comes to the least number behind the largest only. -/
theorem add_one_eq_minValue_iff {v : Int64} : v + 1 = Int64.minValue ↔ v = Int64.maxValue := by
  constructor
  · intro h
    have hback : v + 1 - 1 = Int64.maxValue := by
      rw [h]
      decide
    rwa [Int64.add_sub_cancel] at hback
  · rintro rfl
    decide

/-- The least number follows only the largest. -/
def LeastAfterLargest (a b : ValuedItem) : Prop :=
  b.value = Int64.minValue → a.value = Int64.maxValue

theorem recounted_eq_iff_isChain (i : ValuedItem) (items : List ValuedItem) :
    recounted (i.value + 1) items = items.map ValuedItem.pair ↔
      (i :: items).IsChain LeastAfterLargest := by
  induction items generalizing i with
  | nil => exact iff_of_true rfl (List.isChain_singleton i)
  | cons j items ih =>
      rw [recounted_cons_eq_iff, ih, List.isChain_cons_cons, add_one_eq_minValue_iff]
      rfl

/-- **Printed values are read back unless the least number stands where the count does not lead to it.**
The items come back with their names and in order, each with the value that was printed, but for the least
number, in the place of which the count is read. So the list that was printed is read exactly when its
first item has another value and the least number comes right behind the largest only. -/
theorem itemValues_printed (items : List ValuedItem) (ending : Ending) :
    itemValues (body (items.map ValuedItem.text) ending) = recounted 0 items ∧
      (itemValues (body (items.map ValuedItem.text) ending) = items.map ValuedItem.pair ↔
        (∀ i, items.head? = some i → i.value ≠ Int64.minValue) ∧
          items.IsChain LeastAfterLargest) := by
  have hread : itemValues (body (items.map ValuedItem.text) ending) = recounted 0 items := by
    show number 0 (readItems _) = _
    rw [ValuedItem.readItems_printed, number_printed]
  refine ⟨hread, ?_⟩
  rw [hread]
  cases items with
  | nil => exact iff_of_true rfl ⟨by simp, List.IsChain.nil⟩
  | cons i items =>
      have hzero : ¬ (0 : Int64) = Int64.minValue := by decide
      rw [recounted_cons_eq_iff, recounted_eq_iff_isChain]
      simp [hzero]

/-- Behind the largest number the count comes to the least. -/
example : itemValues "A = 9223372036854775807, B = -9223372036854775808" =
    [(['A'], Int64.maxValue), (['B'], Int64.minValue)] := by
  decide +kernel

/-- The least number is read as the count. -/
theorem least_value_lost :
    itemValues "A = -9223372036854775808" = [(['A'], 0)] := by
  decide +kernel

end Registrar.Enumeration
