import Registrar.Text.Basic

/-!
# Texts as bytes

The UTF-8 form of a text, and its reading. Bytes that are no text are read in pieces: each piece is
a character, or the longest run of bytes that starts one and cannot be completed. A strict reading
refuses such runs; a lossy one puts a replacement character in place of each.
-/

namespace Registrar

/-- The contents of a file. -/
abbrev Bytes := List UInt8

namespace Utf8

/-- A continuation byte with the lowest six bits of a number. -/
def continuation (n : Nat) : UInt8 :=
  UInt8.ofNat (0x80 + n % 0x40)

/-- The bytes of a character. -/
def encodeChar (c : Char) : Bytes :=
  let n := c.toNat
  if n < 0x80 then
    [UInt8.ofNat n]
  else if n < 0x800 then
    [UInt8.ofNat (0xC0 + n / 0x40), continuation n]
  else if n < 0x10000 then
    [UInt8.ofNat (0xE0 + n / 0x1000), continuation (n / 0x40), continuation n]
  else
    [UInt8.ofNat (0xF0 + n / 0x40000), continuation (n / 0x1000), continuation (n / 0x40),
     continuation n]

/-- The bytes of a text. -/
def encode (t : Text) : Bytes :=
  t.flatMap encodeChar

/-- What a first byte says: its bits, how many bytes follow, and the range of the next one. -/
structure Lead where
  bits : Nat
  more : Nat
  low : Nat
  high : Nat
deriving DecidableEq, Repr

/-- What a byte says as the first one of a character. -/
def lead? (b : Nat) : Option Lead :=
  if b < 0x80 then some ⟨b, 0, 0x80, 0xBF⟩
  else if b < 0xC2 then none
  else if b < 0xE0 then some ⟨b - 0xC0, 1, 0x80, 0xBF⟩
  else if b = 0xE0 then some ⟨0, 2, 0xA0, 0xBF⟩
  else if b = 0xED then some ⟨0xD, 2, 0x80, 0x9F⟩
  else if b < 0xF0 then some ⟨b - 0xE0, 2, 0x80, 0xBF⟩
  else if b = 0xF0 then some ⟨0, 3, 0x90, 0xBF⟩
  else if b < 0xF4 then some ⟨b - 0xF0, 3, 0x80, 0xBF⟩
  else if b = 0xF4 then some ⟨4, 3, 0x80, 0x8F⟩
  else none

/-- The number that `more` continuation bytes complete, of which the first lies in a range; the
bytes after those that could be used. -/
def takeTail (bits : Nat) : (more low high : Nat) → Bytes → Option Nat × Bytes
  | 0, _, _, bytes => (some bits, bytes)
  | _ + 1, _, _, [] => (none, [])
  | more + 1, low, high, b :: r =>
    if low ≤ b.toNat ∧ b.toNat ≤ high then
      takeTail (bits * 0x40 + (b.toNat - 0x80)) more 0x80 0xBF r
    else
      (none, b :: r)

theorem length_takeTail_le (bits more low high : Nat) (bytes : Bytes) :
    (takeTail bits more low high bytes).2.length ≤ bytes.length := by
  induction more generalizing bits low high bytes with
  | zero => simp [takeTail]
  | succ more ih =>
      cases bytes with
      | nil => simp [takeTail]
      | cons b r =>
          rw [takeTail]
          split
          · exact Nat.le_succ_of_le (ih ..)
          · exact Nat.le_refl _

/-- The piece that starts with a byte, and the bytes after it. -/
def takePiece (b : UInt8) (r : Bytes) : Option Char × Bytes :=
  match lead? b.toNat with
  | none => (none, r)
  | some lead =>
    let (code, rest) := takeTail lead.bits lead.more lead.low lead.high r
    (code.map Char.ofNat, rest)

theorem length_takePiece_le (b : UInt8) (r : Bytes) : (takePiece b r).2.length ≤ r.length := by
  rw [takePiece]
  split
  · exact Nat.le_refl _
  · exact length_takeTail_le ..

/-- The pieces of a row of bytes: characters, and nothing for a run that is none. -/
def pieces (bytes : Bytes) : List (Option Char) :=
  match bytes with
  | [] => []
  | b :: r => (takePiece b r).1 :: pieces (takePiece b r).2
termination_by bytes.length
decreasing_by
  exact Nat.lt_succ_of_le (length_takePiece_le b r)

/-- The text of a row of bytes, if it is one. -/
def decode? (bytes : Bytes) : Option Text :=
  (pieces bytes).mapM id

/-- The text of a row of bytes, with a replacement character for every run that is none. -/
def decodeLossy (bytes : Bytes) : Text :=
  (pieces bytes).map (·.getD '�')

end Utf8

end Registrar
