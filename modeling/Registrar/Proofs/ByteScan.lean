import Registrar.Proofs.Brackets
import Registrar.Proofs.Sites
import Registrar.Proofs.Utf8RoundTrip

/-!
# The matching closer, byte by byte

A closer is found by its place among the bytes of a text, while the text that it closes is made of
characters. The two agree for delimiters of ASCII, because such a byte is part of no other character
(`asciiByte_notMem_encodeChar`).

`ByteScan` is the scan over bytes, with its counter and the bytes that it has passed. What one byte does
to the counter (`pending_step_nonneg`) gives what a whole scan does to it: it never goes below zero. What
the bytes of one character do (`stop?_encode_opener`, `stop?_encode_closer`, `stop?_encode_other`) gives
that the scan stops just after the closer that counting characters finds (`stop?_encode`). So an offset
between two characters leads to an offset between two characters, and the text between the delimiters is
the only one that opens as often as it closes before a closer, without closing more on the way.
-/

namespace Registrar.Utf8

open Text

/-! ## Bytes of ASCII -/

/-- The byte of a character of ASCII. -/
def asciiByte (c : Char) : UInt8 :=
  UInt8.ofNat c.toNat

theorem toNat_asciiByte {c : Char} (h : c.toNat < 0x80) : (asciiByte c).toNat = c.toNat := by
  rw [asciiByte, UInt8.toNat_ofNat']
  omega

theorem asciiByte_inj {c d : Char} (hc : c.toNat < 0x80) (hd : d.toNat < 0x80) :
    asciiByte c = asciiByte d ↔ c = d := by
  constructor
  · intro h
    apply Char.toNat_inj.mp
    rw [← toNat_asciiByte hc, h, toNat_asciiByte hd]
  · intro h
    rw [h]

theorem encodeChar_ascii {c : Char} (h : c.toNat < 0x80) : encodeChar c = [asciiByte c] :=
  if_pos h

/-- A character beyond ASCII has no byte of ASCII. -/
theorem le_of_mem_encodeChar {c : Char} {b : UInt8} (h : 0x80 ≤ c.toNat) (hb : b ∈ encodeChar c) :
    0x80 ≤ b.toNat := by
  -- a first byte from 0x80 on, and continuation bytes behind it
  have hrow : ∀ (n : Nat) (tail : List Nat), 0x80 ≤ n → n < 0x100 →
      b ∈ UInt8.ofNat n :: tail.map continuation → 0x80 ≤ b.toNat := by
    intro n tail hlow hhigh hmem
    rcases List.mem_cons.mp hmem with rfl | hmem
    · rw [UInt8.toNat_ofNat']
      omega
    · obtain ⟨m, -, rfl⟩ := List.mem_map.mp hmem
      rw [toNat_continuation]
      omega
  have hcode := toNat_cases c
  rw [encodeChar, if_neg (by omega)] at hb
  split at hb
  · exact hrow _ [c.toNat] (by omega) (by omega) hb
  · split at hb
    · exact hrow _ [c.toNat / 0x40, c.toNat] (by omega) (by omega) hb
    · exact hrow _ [c.toNat / 0x1000, c.toNat / 0x40, c.toNat] (by omega) (by omega) hb

/-- A byte of ASCII stands for its own character only. -/
theorem asciiByte_notMem_encodeChar {c d : Char} (hd : d.toNat < 0x80) (hne : c ≠ d) :
    asciiByte d ∉ encodeChar c := by
  intro hmem
  by_cases hc : c.toNat < 0x80
  · rw [encodeChar_ascii hc, List.mem_singleton, asciiByte_inj hd hc] at hmem
    exact hne hmem.symm
  · have hlow := le_of_mem_encodeChar (Nat.le_of_not_lt hc) hmem
    rw [toNat_asciiByte hd] at hlow
    omega

theorem length_encodeChar (c : Char) : (encodeChar c).length = c.utf8Size := by
  have hle : ∀ {n : UInt32}, c.toNat < n.toNat + 1 → c.val ≤ n := fun h =>
    UInt32.le_iff_toNat_le.mpr (Nat.le_of_lt_succ h)
  have hlt : ∀ {n : UInt32}, ¬ c.toNat < n.toNat + 1 → n < c.val := fun h =>
    UInt32.lt_iff_toNat_lt.mpr (Nat.lt_of_not_le fun hc => h (Nat.lt_succ_of_le hc))
  rw [encodeChar]
  split
  · next hone => exact (Char.utf8Size_eq_one_iff.mpr (hle hone)).symm
  · next hone =>
    split
    · next htwo => exact (Char.utf8Size_eq_two_iff.mpr ⟨hlt hone, hle htwo⟩).symm
    · next htwo =>
      split
      · next hthree => exact (Char.utf8Size_eq_three_iff.mpr ⟨hlt htwo, hle hthree⟩).symm
      · next hthree => exact (Char.utf8Size_eq_four_iff.mpr (hlt hthree)).symm

theorem utf8Size_ascii {c : Char} (h : c.toNat < 0x80) : c.utf8Size = 1 := by
  rw [← length_encodeChar, encodeChar_ascii h, List.length_singleton]

theorem encode_cons (c : Char) (r : Text) : encode (c :: r) = encodeChar c ++ encode r :=
  List.flatMap_cons

theorem encode_append (s t : Text) : encode (s ++ t) = encode s ++ encode t :=
  List.flatMap_append

theorem length_encode (t : Text) : (encode t).length = byteLength t := by
  induction t with
  | nil => rfl
  | cons c r ih => rw [encode_cons, List.length_append, length_encodeChar, ih, byteLength]

/-- Past the bytes of a text stand the bytes of what follows it. -/
theorem drop_encode_append (front back : Text) :
    (encode (front ++ back)).drop (byteLength front) = encode back := by
  rw [encode_append, ← length_encode, List.drop_left]

end Registrar.Utf8

namespace Registrar

/-- A scan for the closer of an opener that is pending: how many openers are pending, and how many
bytes have been passed. Nothing in the type keeps the first number from going below zero. -/
structure ByteScan where
  pending : Int
  passed : Nat

namespace ByteScan

/-- Past one more byte, one more opener is pending, or one less, or as many as before. -/
def step (opener closer : UInt8) (s : ByteScan) (b : UInt8) : ByteScan where
  pending := if b = opener then s.pending + 1 else if b = closer then s.pending - 1 else s.pending
  passed := s.passed + 1

/-- The states of a scan, byte after byte: it ends where no opener is pending, or with the last
byte. -/
def states (opener closer : UInt8) (s : ByteScan) : Bytes → List ByteScan
  | [] => [s]
  | b :: r =>
    if s.pending = 0 then [s] else s :: states opener closer (s.step opener closer b) r

/-- How many bytes are passed with the closer, in a scan that ends there. -/
def stop? (opener closer : UInt8) (s : ByteScan) (bytes : Bytes) : Option Nat :=
  (states opener closer s bytes).getLast?.bind fun last =>
    if last.pending = 0 then some last.passed else none

section

variable {opener closer : UInt8} {s : ByteScan} {bytes : Bytes}

/-! ## One byte, and then all of them -/

/-- An opener that is pending is the only thing that a byte can close. -/
theorem pending_step_nonneg (h : 0 ≤ s.pending) (hne : s.pending ≠ 0) (b : UInt8) :
    0 ≤ (s.step opener closer b).pending := by
  simp only [step]
  split
  · omega
  · split
    · omega
    · exact h

theorem pending_nonneg_of_mem_states (h : 0 ≤ s.pending) {state : ByteScan}
    (hstate : state ∈ states opener closer s bytes) : 0 ≤ state.pending := by
  induction bytes generalizing s with
  | nil =>
      obtain rfl := List.mem_singleton.mp hstate
      exact h
  | cons b r ih =>
      rw [states] at hstate
      split at hstate
      · obtain rfl := List.mem_singleton.mp hstate
        exact h
      · next hne =>
        rcases List.mem_cons.mp hstate with rfl | hstate
        · exact h
        · exact ih (pending_step_nonneg h hne b) hstate

theorem states_ne_nil (s : ByteScan) (bytes : Bytes) : states opener closer s bytes ≠ [] := by
  cases bytes with
  | nil => exact List.cons_ne_nil _ _
  | cons b r =>
      rw [states]
      split <;> exact List.cons_ne_nil _ _

theorem stop?_nil (h : s.pending ≠ 0) : stop? opener closer s [] = none :=
  if_neg h

theorem stop?_done (h : s.pending = 0) : stop? opener closer s bytes = some s.passed := by
  have hstates : states opener closer s bytes = [s] := by
    cases bytes with
    | nil => rfl
    | cons b r => exact if_pos h
  rw [stop?, hstates]
  exact if_pos h

theorem stop?_cons (h : s.pending ≠ 0) (b : UInt8) (r : Bytes) :
    stop? opener closer s (b :: r) = stop? opener closer (s.step opener closer b) r := by
  obtain ⟨first, others, hrest⟩ :=
    List.exists_cons_of_ne_nil (states_ne_nil (s.step opener closer b) r)
  rw [stop?, states, if_neg h, hrest, List.getLast?_cons_cons, ← hrest, stop?]

/-- Bytes that are no delimiters are only counted. -/
theorem stop?_append (h : s.pending ≠ 0) {front : Bytes}
    (hfront : ∀ b ∈ front, b ≠ opener ∧ b ≠ closer) (rest : Bytes) :
    stop? opener closer s (front ++ rest) =
      stop? opener closer ⟨s.pending, s.passed + front.length⟩ rest := by
  induction front generalizing s with
  | nil => rfl
  | cons b r ih =>
      obtain ⟨⟨hopener, hcloser⟩, hr⟩ := List.forall_mem_cons.mp hfront
      have hstep : s.step opener closer b = ⟨s.pending, s.passed + 1⟩ := by
        rw [step, if_neg hopener, if_neg hcloser]
      rw [List.cons_append, stop?_cons h, hstep, ih (s := ⟨s.pending, s.passed + 1⟩) h hr,
        List.length_cons, Nat.add_assoc, Nat.add_comm 1]

end

/-! ## The bytes of a character -/

open Text Utf8

variable {opener closer : Char} {s : ByteScan}

theorem stop?_encode_opener (hopener : opener.toNat < 0x80) (h : s.pending ≠ 0) (r : Text) :
    stop? (asciiByte opener) (asciiByte closer) s (encode (opener :: r)) =
      stop? (asciiByte opener) (asciiByte closer) ⟨s.pending + 1, s.passed + 1⟩ (encode r) := by
  rw [encode_cons, encodeChar_ascii hopener, List.singleton_append, stop?_cons h, step, if_pos rfl]

theorem stop?_encode_closer (hopener : opener.toNat < 0x80) (hcloser : closer.toNat < 0x80)
    (hne : closer ≠ opener) (h : s.pending ≠ 0) (r : Text) :
    stop? (asciiByte opener) (asciiByte closer) s (encode (closer :: r)) =
      stop? (asciiByte opener) (asciiByte closer) ⟨s.pending - 1, s.passed + 1⟩ (encode r) := by
  rw [encode_cons, encodeChar_ascii hcloser, List.singleton_append, stop?_cons h, step,
    if_neg (mt (asciiByte_inj hcloser hopener).mp hne), if_pos rfl]

/-- Any other character is passed as a whole, however many bytes it has. -/
theorem stop?_encode_other (hopener : opener.toNat < 0x80) (hcloser : closer.toNat < 0x80)
    {c : Char} (hopen : c ≠ opener) (hclose : c ≠ closer) (h : s.pending ≠ 0) (r : Text) :
    stop? (asciiByte opener) (asciiByte closer) s (encode (c :: r)) =
      stop? (asciiByte opener) (asciiByte closer) ⟨s.pending, s.passed + c.utf8Size⟩ (encode r) := by
  have hbytes : ∀ b ∈ encodeChar c, b ≠ asciiByte opener ∧ b ≠ asciiByte closer := by
    intro b hb
    exact ⟨fun heq => asciiByte_notMem_encodeChar hopener hopen (heq ▸ hb),
      fun heq => asciiByte_notMem_encodeChar hcloser hclose (heq ▸ hb)⟩
  rw [encode_cons, stop?_append h hbytes, length_encodeChar]

/-- **Bytes and characters tell the same closer.** With as many openers pending, a scan of the bytes
passes what the text up to the closer and the closer itself have of them. -/
theorem stop?_encode (hopener : opener.toNat < 0x80) (hcloser : closer.toNat < 0x80) (depth n : Nat)
    (t : Text) :
    stop? (asciiByte opener) (asciiByte closer) ⟨depth + 1, n⟩ (encode t) =
      (closing? opener closer depth t).map fun found => n + found.1.byteLength + 1 := by
  have hpending : ∀ depth n : Nat, (⟨depth + 1, n⟩ : ByteScan).pending ≠ 0 := by
    intro depth n
    simp only
    omega
  induction t generalizing depth n with
  | nil => exact stop?_nil (hpending depth n)
  | cons c r ih =>
      -- behind a character that does not end the scan, what is found is longer by this character
      have hlonger : ∀ d m, m = n + c.utf8Size →
          stop? (asciiByte opener) (asciiByte closer) ⟨(d : Nat) + 1, m⟩ (encode r) =
            ((closing? opener closer d r).map fun found => (c :: found.1, found.2)).map
              fun found => n + byteLength found.1 + 1 := by
        intro d m hm
        rw [ih, Option.map_map, hm]
        congr 1
        funext found
        simp only [Function.comp, byteLength]
        omega
      by_cases hopen : c = opener
      · subst hopen
        rw [stop?_encode_opener hopener (hpending depth n)]
        simp only [closing?, if_true]
        exact hlonger (depth + 1) (n + 1) (by rw [utf8Size_ascii hopener])
      · by_cases hclose : c = closer
        · subst hclose
          rw [stop?_encode_closer hopener hcloser hopen (hpending depth n), Int.add_sub_cancel]
          cases depth with
          | zero =>
              rw [stop?_done rfl]
              simp [closing?, hopen, byteLength]
          | succ d =>
              simp only [closing?, if_neg hopen, if_true]
              exact hlonger d (n + 1) (by rw [utf8Size_ascii hcloser])
        · rw [stop?_encode_other hopener hcloser hopen hclose (hpending depth n)]
          simp only [closing?, if_neg hopen, if_neg hclose]
          exact hlonger depth _ rfl

end ByteScan

namespace Text

open Utf8

variable {opener closer : Char} {t : Text}

/-! ## What is enclosed -/

/-- A number of bytes that ends between two characters of a text, or at one of its ends. -/
def IsBoundary (t : Text) (n : Nat) : Prop :=
  ∃ front : Text, front <+: t ∧ front.byteLength = n

/-- What the delimiters enclose at the front of a text, just after an opener: a text with the closer
behind it that opens as often as it closes, and no front part of which closes more often. -/
structure IsEnclosed (opener closer : Char) (t inner : Text) : Prop where
  closed : ∃ rest, t = inner ++ closer :: rest
  even : inner.count opener = inner.count closer
  fronts : ∀ front, front <+: inner → front.count closer ≤ front.count opener

theorem isEnclosed_iff {inner : Text} : IsEnclosed opener closer t inner ↔
    ∃ rest, t = inner ++ closer :: rest ∧ Balanced opener closer inner := by
  constructor
  · intro h
    obtain ⟨rest, hrest⟩ := h.closed
    refine ⟨rest, hrest, fun front hfront => ?_, ?_⟩
    · rw [Nat.zero_add]
      exact h.fronts front hfront
    · rw [Nat.zero_add]
      exact h.even.symm
  · intro h
    obtain ⟨rest, hrest, hinner⟩ := h
    refine ⟨⟨rest, hrest⟩, ?_, fun front hfront => ?_⟩
    · rw [hinner.whole, Nat.zero_add]
    · have hle := hinner.fronts front hfront
      rwa [Nat.zero_add] at hle

/-- The offset just after the closer counts what stands before it. -/
theorem enclosedAt?_append (hcloser : closer.toNat < 0x80) (hne : opener ≠ closer)
    (front back : Text) :
    (front ++ back).enclosedAt? opener closer front.byteLength =
      (back.balanced? opener closer).map fun found =>
        (found.1, front.byteLength + byteLength found.1 + 1) := by
  rw [enclosedAt?, dropBytes_append]
  cases hfound : back.balanced? opener closer with
  | none => rfl
  | some found =>
      obtain ⟨hback, -⟩ := (balanced?_eq_some_iff hne).mp hfound
      have hstop : byteLength (front ++ back) - byteLength found.2 =
          front.byteLength + byteLength found.1 + 1 := by
        rw [hback, byteLength_append, byteLength_append, byteLength, utf8Size_ascii hcloser]
        omega
      exact congrArg (fun stop => some (found.1, stop)) hstop

theorem enclosedAt?_eq_some_iff (hcloser : closer.toNat < 0x80) (hne : opener ≠ closer)
    {front back inner : Text} {stop : Nat} :
    (front ++ back).enclosedAt? opener closer front.byteLength = some (inner, stop) ↔
      IsEnclosed opener closer back inner ∧ stop = front.byteLength + inner.byteLength + 1 := by
  rw [enclosedAt?_append hcloser hne, isEnclosed_iff, Option.map_eq_some_iff]
  constructor
  · intro h
    obtain ⟨⟨inner', rest⟩, hfound, heq⟩ := h
    obtain ⟨rfl, rfl⟩ := Prod.mk.inj heq
    exact ⟨⟨rest, (balanced?_eq_some_iff hne).mp hfound⟩, rfl⟩
  · intro h
    obtain ⟨⟨rest, hrest⟩, rfl⟩ := h
    exact ⟨(inner, rest), (balanced?_eq_some_iff hne).mpr hrest, rfl⟩

/-- **The matching closer.** Let the byte `start` of a text stand between two characters, and let the
delimiters be two characters of ASCII. The text `inner` with the offset `stop` is found exactly when
`inner` is what the delimiters enclose from there on and `stop` is the offset just after its closer,
which stands between two characters again; where no text is enclosed, nothing is found. A scan of the
bytes that counts pending openers finds the same offset, and its counter never goes below zero. -/
theorem enclosedAt?_finds_matching (t : Text) (start : Nat) (opener closer : Char)
    (hstart : t.IsBoundary start) (hopener : opener.toNat < 0x80) (hcloser : closer.toNat < 0x80)
    (hne : opener ≠ closer) :
    (∀ inner stop, t.enclosedAt? opener closer start = some (inner, stop) ↔
      IsEnclosed opener closer (t.dropBytes start) inner ∧ stop = start + inner.byteLength + 1) ∧
    (∀ inner stop, t.enclosedAt? opener closer start = some (inner, stop) → t.IsBoundary stop) ∧
    (t.enclosedAt? opener closer start = none ↔
      ∀ inner, ¬ IsEnclosed opener closer (t.dropBytes start) inner) ∧
    ByteScan.stop? (asciiByte opener) (asciiByte closer) ⟨1, start⟩ ((encode t).drop start) =
      (t.enclosedAt? opener closer start).map Prod.snd ∧
    ∀ state ∈ ByteScan.states (asciiByte opener) (asciiByte closer) ⟨1, start⟩
        ((encode t).drop start),
      0 ≤ state.pending := by
  obtain ⟨front, ⟨back, rfl⟩, rfl⟩ := hstart
  rw [dropBytes_append, drop_encode_append]
  have hfound : ∀ inner stop,
      (front ++ back).enclosedAt? opener closer front.byteLength = some (inner, stop) ↔
        IsEnclosed opener closer back inner ∧ stop = front.byteLength + inner.byteLength + 1 :=
    fun _ _ => enclosedAt?_eq_some_iff hcloser hne
  refine ⟨hfound, fun inner stop h => ?_, ?_, ?_, ?_⟩
  · obtain ⟨hinner, rfl⟩ := (hfound inner stop).mp h
    obtain ⟨rest, rfl⟩ := hinner.closed
    refine ⟨front ++ (inner ++ [closer]), ⟨rest, by simp⟩, ?_⟩
    rw [byteLength_append, byteLength_append, byteLength, utf8Size_ascii hcloser, byteLength,
      Nat.add_assoc]
  · rw [Option.eq_none_iff_forall_ne_some]
    constructor
    · intro h inner hinner
      exact h _ ((hfound inner _).mpr ⟨hinner, rfl⟩)
    · intro h found heq
      exact h found.1 ((hfound found.1 found.2).mp heq).1
  · have hscan := ByteScan.stop?_encode hopener hcloser 0 front.byteLength back
    rw [enclosedAt?_append hcloser hne, Option.map_map]
    exact hscan
  · intro state hstate
    exact ByteScan.pending_nonneg_of_mem_states (by simp) hstate

/-- Characters of two and three bytes around the inner pair: the pair is passed and the next closer is
the one, one byte behind the ten that are enclosed. -/
theorem enclosedAt?_finds_matching_wide :
    let t : Text := "TPair(é(액)터) (끝"
    let inner : Text := "é(액)터"
    (t.IsBoundary 6 ∧ '('.toNat < 0x80 ∧ ')'.toNat < 0x80 ∧ '(' ≠ ')') ∧
    IsEnclosed '(' ')' (t.dropBytes 6) inner ∧
    t.enclosedAt? '(' ')' 6 = some (inner, 17) ∧ t.IsBoundary 17 ∧
    ByteScan.stop? (asciiByte '(') (asciiByte ')') ⟨1, 6⟩ ((encode t).drop 6) = some 17 := by
  intro t inner
  have hstart : t.IsBoundary 6 := ⟨"TPair(", ⟨"é(액)터) (끝", by decide +kernel⟩, by decide +kernel⟩
  have hinner : IsEnclosed '(' ')' (t.dropBytes 6) inner :=
    isEnclosed_iff.mpr ⟨" (끝", by decide +kernel, by decide +kernel⟩
  obtain ⟨hiff, hboundary, -, hscan, -⟩ := enclosedAt?_finds_matching t 6 '(' ')' hstart
    (by decide) (by decide) (by decide)
  have hfound : t.enclosedAt? '(' ')' 6 = some (inner, 17) :=
    (hiff inner 17).mpr ⟨hinner, by decide +kernel⟩
  rw [hfound] at hscan
  exact ⟨⟨hstart, by decide, by decide, by decide⟩, hinner, hfound, hboundary inner 17 hfound, hscan⟩

end Text

end Registrar
