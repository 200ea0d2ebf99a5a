import Registrar.Utf8

/-!
# Digests

The SHA-256 digest, which the build cache records for a header: the message is padded to blocks of
64 bytes, and every block is mixed into eight words of state.
-/

namespace Registrar.Digest

/-- The state and the schedule are made of words. -/
abbrev Word := UInt32

/-- The first 32 bits of the fractional parts of the cube roots of the first 64 primes. -/
def roundConstants : List Word :=
  [0x428a2f98, 0x71374491, 0xb5c0fbcf, 0xe9b5dba5, 0x3956c25b, 0x59f111f1, 0x923f82a4, 0xab1c5ed5,
   0xd807aa98, 0x12835b01, 0x243185be, 0x550c7dc3, 0x72be5d74, 0x80deb1fe, 0x9bdc06a7, 0xc19bf174,
   0xe49b69c1, 0xefbe4786, 0x0fc19dc6, 0x240ca1cc, 0x2de92c6f, 0x4a7484aa, 0x5cb0a9dc, 0x76f988da,
   0x983e5152, 0xa831c66d, 0xb00327c8, 0xbf597fc7, 0xc6e00bf3, 0xd5a79147, 0x06ca6351, 0x14292967,
   0x27b70a85, 0x2e1b2138, 0x4d2c6dfc, 0x53380d13, 0x650a7354, 0x766a0abb, 0x81c2c92e, 0x92722c85,
   0xa2bfe8a1, 0xa81a664b, 0xc24b8b70, 0xc76c51a3, 0xd192e819, 0xd6990624, 0xf40e3585, 0x106aa070,
   0x19a4c116, 0x1e376c08, 0x2748774c, 0x34b0bcb5, 0x391c0cb3, 0x4ed8aa4a, 0x5b9cca4f, 0x682e6ff3,
   0x748f82ee, 0x78a5636f, 0x84c87814, 0x8cc70208, 0x90befffa, 0xa4506ceb, 0xbef9a3f7, 0xc67178f2]

/-- The eight words of state. -/
structure State where
  a : Word
  b : Word
  c : Word
  d : Word
  e : Word
  f : Word
  g : Word
  h : Word
deriving DecidableEq, Repr

/-- The first 32 bits of the fractional parts of the square roots of the first eight primes. -/
def start : State :=
  ⟨0x6a09e667, 0xbb67ae85, 0x3c6ef372, 0xa54ff53a,
   0x510e527f, 0x9b05688c, 0x1f83d9ab, 0x5be0cd19⟩

/-- A word turned to the right by `n` of its 32 bits. -/
def rotate (n x : Word) : Word :=
  (x >>> n) ||| (x <<< (32 - n))

/-- The word of the next round, from the last sixteen words, latest first. -/
def nextWord (latest : List Word) : Word :=
  let at_ (n : Nat) : Word := (latest[n - 1]?).getD 0
  let low := rotate 7 (at_ 15) ^^^ rotate 18 (at_ 15) ^^^ (at_ 15 >>> 3)
  let high := rotate 17 (at_ 2) ^^^ rotate 19 (at_ 2) ^^^ (at_ 2 >>> 10)
  at_ 16 + low + at_ 7 + high

/-- The message schedule: `n` more words in front of those so far, latest first. -/
def extend : (n : Nat) → (latest : List Word) → List Word
  | 0, latest => latest
  | n + 1, latest => extend n (nextWord latest :: latest)

/-- One round, with its constant and its word of the schedule. -/
def round (s : State) (k w : Word) : State :=
  let mixE := rotate 6 s.e ^^^ rotate 11 s.e ^^^ rotate 25 s.e
  let choice := (s.e &&& s.f) ^^^ (~~~s.e &&& s.g)
  let first := s.h + mixE + choice + k + w
  let mixA := rotate 2 s.a ^^^ rotate 13 s.a ^^^ rotate 22 s.a
  let majority := (s.a &&& s.b) ^^^ (s.a &&& s.c) ^^^ (s.b &&& s.c)
  ⟨first + (mixA + majority), s.a, s.b, s.c, s.d + first, s.e, s.f, s.g⟩

/-- A block of sixteen words mixed into the state. -/
def mix (s : State) (block : List Word) : State :=
  let schedule := (extend 48 block.reverse).reverse
  let m := (roundConstants.zip schedule).foldl (fun s (k, w) => round s k w) s
  ⟨s.a + m.a, s.b + m.b, s.c + m.c, s.d + m.d, s.e + m.e, s.f + m.f, s.g + m.g, s.h + m.h⟩

/-- The last `n` bytes of a number, highest first. -/
def bigEndian (n value : Nat) : Bytes :=
  (List.range n).map fun i => UInt8.ofNat (value / Nat.pow 256 (n - 1 - i))

/-- The message with a one bit, zeros up to eight bytes short of a full block, and its length in
bits. -/
def pad (message : Bytes) : Bytes :=
  let zeros := (119 - message.length % 64) % 64
  message ++ 0x80 :: List.replicate zeros 0 ++ bigEndian 8 (8 * message.length)

/-- The words of a row of bytes, four bytes each, highest first. -/
def wordsOf : Bytes → List Word
  | a :: b :: c :: d :: r =>
    ((a.toUInt32 <<< 24) ||| (b.toUInt32 <<< 16) ||| (c.toUInt32 <<< 8) ||| d.toUInt32) :: wordsOf r
  | _ => []

/-- The state after blocks of sixteen words; `n` bounds their number. -/
def mixAll : (n : Nat) → State → List Word → State
  | 0, s, _ => s
  | n + 1, s, words =>
    if words.length < 16 then s else mixAll n (mix s (words.take 16)) (words.drop 16)

/-- The digest of a message. -/
def sha256 (message : Bytes) : Bytes :=
  let words := wordsOf (pad message)
  let s := mixAll (words.length / 16) start words
  [s.a, s.b, s.c, s.d, s.e, s.f, s.g, s.h].flatMap fun w => bigEndian 4 w.toNat

/-- Bytes as two hexadecimal digits each. -/
def hex (bytes : Bytes) : Text :=
  bytes.flatMap fun b => [Text.digit (b.toNat / 16), Text.digit (b.toNat % 16)]

/-- The digest of a file's contents, as it is recorded. -/
def ofBytes (bytes : Bytes) : Text :=
  hex (sha256 bytes)

end Registrar.Digest
