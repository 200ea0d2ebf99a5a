import Registrar.Utf8

/-!
# Texts are read back from their bytes

A character is read back from its bytes, whatever follows them (`pieces_encodeChar_append`), so a text
is what a strict reading makes of its bytes (`decode?_encode`).
-/

/-- Things that are all there are there together. -/
theorem Registrar.Text.mapM_id_map_some {α : Type} (l : List α) : (l.map some).mapM id = some l := by
  induction l with
  | nil => rfl
  | cons a l ih =>
      rw [List.map_cons, List.mapM_cons, ih]
      rfl

namespace Registrar.Utf8

theorem toNat_continuation (n : Nat) : (continuation n).toNat = 0x80 + n % 0x40 := by
  rw [continuation, UInt8.toNat_ofNat']
  omega

/-- A continuation byte within its range completes the number by six bits. -/
theorem takeTail_continuation {low high : Nat} (bits more n : Nat) (rest : Bytes)
    (hlow : low ≤ 0x80 + n % 0x40) (hhigh : 0x80 + n % 0x40 ≤ high) :
    takeTail bits (more + 1) low high (continuation n :: rest) =
      takeTail (bits * 0x40 + n % 0x40) more 0x80 0xBF rest := by
  rw [takeTail, toNat_continuation, if_pos ⟨hlow, hhigh⟩, Nat.add_sub_cancel_left]

/-- The first byte of a character says how its number starts. -/
theorem takePiece_of_lead {b bits more low high : Nat} (hb : b < 0x100)
    (hlead : lead? b = some ⟨bits, more, low, high⟩) (r : Bytes) :
    takePiece (UInt8.ofNat b) r =
      ((takeTail bits more low high r).1.map Char.ofNat, (takeTail bits more low high r).2) := by
  have htoNat : (UInt8.ofNat b).toNat = b := by
    rw [UInt8.toNat_ofNat']
    omega
  rw [takePiece, htoNat, hlead]

/-- The numbers of characters leave out the halves of pairs and end with the last plane. -/
theorem toNat_cases (c : Char) : c.toNat < 0xD800 ∨ 0xDFFF < c.toNat ∧ c.toNat < 0x110000 :=
  c.valid

theorem lead?_two {n : Nat} (hlow : 0x80 ≤ n) (hhigh : n < 0x800) :
    lead? (0xC0 + n / 0x40) = some ⟨n / 0x40, 1, 0x80, 0xBF⟩ := by
  rw [lead?, if_neg (by omega), if_neg (by omega), if_pos (by omega), Nat.add_sub_cancel_left]

/-- The first of three bytes bounds the second: neither a shorter form nor half of a pair passes. -/
theorem lead?_three {n : Nat} (hlow : 0x800 ≤ n) (hhigh : n < 0x10000)
    (hvalid : n < 0xD800 ∨ 0xDFFF < n) :
    ∃ low high, lead? (0xE0 + n / 0x1000) = some ⟨n / 0x1000, 2, low, high⟩ ∧
      low ≤ 0x80 + n / 0x40 % 0x40 ∧ 0x80 + n / 0x40 % 0x40 ≤ high := by
  rw [lead?, if_neg (by omega), if_neg (by omega), if_neg (by omega)]
  by_cases hzero : n / 0x1000 = 0
  · rw [if_pos (by omega), hzero]
    exact ⟨_, _, rfl, by omega, by omega⟩
  · rw [if_neg (by omega)]
    by_cases hpairs : n / 0x1000 = 0xD
    · rw [if_pos (by omega), hpairs]
      exact ⟨_, _, rfl, by omega, by omega⟩
    · rw [if_neg (by omega), if_pos (by omega), Nat.add_sub_cancel_left]
      exact ⟨_, _, rfl, by omega, by omega⟩

/-- The first of four bytes bounds the second: neither a shorter form nor a number past the last plane
passes. -/
theorem lead?_four {n : Nat} (hlow : 0x10000 ≤ n) (hhigh : n < 0x110000) :
    ∃ low high, lead? (0xF0 + n / 0x40000) = some ⟨n / 0x40000, 3, low, high⟩ ∧
      low ≤ 0x80 + n / 0x1000 % 0x40 ∧ 0x80 + n / 0x1000 % 0x40 ≤ high := by
  rw [lead?, if_neg (by omega), if_neg (by omega), if_neg (by omega), if_neg (by omega),
    if_neg (by omega), if_neg (by omega)]
  by_cases hzero : n / 0x40000 = 0
  · rw [if_pos (by omega), hzero]
    exact ⟨_, _, rfl, by omega, by omega⟩
  · rw [if_neg (by omega)]
    by_cases hlast : n / 0x40000 = 4
    · rw [if_neg (by omega), if_pos (by omega), hlast]
      exact ⟨_, _, rfl, by omega, by omega⟩
    · rw [if_pos (by omega), Nat.add_sub_cancel_left]
      exact ⟨_, _, rfl, by omega, by omega⟩

/-- The bytes of a character are one piece, whatever follows. -/
theorem takePiece_encodeChar (c : Char) : ∃ b tail, encodeChar c = b :: tail ∧
    ∀ rest, takePiece b (tail ++ rest) = (some c, rest) := by
  have hvalid := toNat_cases c
  have hself : Char.ofNat c.toNat = c := Char.ofNat_toNat c
  generalize hn : c.toNat = n at hvalid hself
  by_cases hone : n < 0x80
  · refine ⟨UInt8.ofNat n, [], by simp [encodeChar, hn, hone], fun rest => ?_⟩
    have hlead : lead? n = some ⟨n, 0, 0x80, 0xBF⟩ := by rw [lead?, if_pos hone]
    rw [takePiece_of_lead (by omega) hlead, List.nil_append, takeTail, Option.map_some, hself]
  by_cases htwo : n < 0x800
  · refine ⟨UInt8.ofNat (0xC0 + n / 0x40), [continuation n], by simp [encodeChar, hn, hone, htwo],
      fun rest => ?_⟩
    have hcode : n / 0x40 * 0x40 + n % 0x40 = n := by omega
    rw [takePiece_of_lead (by omega) (lead?_two (by omega) htwo), List.singleton_append,
      takeTail_continuation _ _ _ _ (by omega) (by omega), takeTail, hcode, Option.map_some, hself]
  by_cases hthree : n < 0x10000
  · refine ⟨UInt8.ofNat (0xE0 + n / 0x1000), [continuation (n / 0x40), continuation n],
      by simp [encodeChar, hn, hone, htwo, hthree], fun rest => ?_⟩
    obtain ⟨low, high, hlead, hlow, hhigh⟩ := lead?_three (n := n) (by omega) hthree (by omega)
    have hcode : (n / 0x1000 * 0x40 + n / 0x40 % 0x40) * 0x40 + n % 0x40 = n := by omega
    rw [takePiece_of_lead (by omega) hlead, List.cons_append, List.singleton_append,
      takeTail_continuation _ _ _ _ hlow hhigh, takeTail_continuation _ _ _ _ (by omega) (by omega),
      takeTail, hcode, Option.map_some, hself]
  · refine ⟨UInt8.ofNat (0xF0 + n / 0x40000),
      [continuation (n / 0x1000), continuation (n / 0x40), continuation n],
      by simp [encodeChar, hn, hone, htwo, hthree], fun rest => ?_⟩
    obtain ⟨low, high, hlead, hlow, hhigh⟩ := lead?_four (n := n) (by omega) (by omega)
    have hcode : ((n / 0x40000 * 0x40 + n / 0x1000 % 0x40) * 0x40 + n / 0x40 % 0x40) * 0x40 +
        n % 0x40 = n := by omega
    rw [takePiece_of_lead (by omega) hlead, List.cons_append, List.cons_append,
      List.singleton_append, takeTail_continuation _ _ _ _ hlow hhigh,
      takeTail_continuation _ _ _ _ (by omega) (by omega),
      takeTail_continuation _ _ _ _ (by omega) (by omega), takeTail, hcode, Option.map_some, hself]

theorem pieces_encodeChar_append (c : Char) (rest : Bytes) :
    pieces (encodeChar c ++ rest) = some c :: pieces rest := by
  obtain ⟨b, tail, hbytes, hread⟩ := takePiece_encodeChar c
  rw [hbytes, List.cons_append, pieces, hread]

theorem pieces_encode (t : Text) : pieces (encode t) = t.map some := by
  induction t with
  | nil =>
      show pieces [] = []
      rw [pieces]
  | cons c r ih =>
      show pieces (encodeChar c ++ encode r) = _
      rw [pieces_encodeChar_append, ih, List.map_cons]

/-- **A text is read back from its bytes.** -/
theorem decode?_encode (t : Text) : decode? (encode t) = some t := by
  rw [decode?, pieces_encode, Text.mapM_id_map_some]

end Registrar.Utf8
