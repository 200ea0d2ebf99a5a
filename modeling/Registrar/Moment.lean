/-!
# Moments

When a file was changed: seconds and nanoseconds since the epoch, within the range of a clock that
counts seconds in 63 bits.
-/

namespace Registrar

/-- Seconds and nanoseconds since the epoch. -/
structure Moment where
  secs : Nat
  nanos : Nat
  secs_lt : secs < Nat.pow 2 63
  nanos_lt : nanos < Nat.pow 10 9
deriving DecidableEq, Repr

namespace Moment

/-- The epoch itself. -/
def epoch : Moment where
  secs := 0
  nanos := 0
  secs_lt := by decide
  nanos_lt := by decide

instance : Inhabited Moment := ⟨epoch⟩

/-- The moment of a number of seconds and nanoseconds, of which whole seconds are carried over;
nothing when the clock does not reach it. -/
def ofParts? (secs nanos : Nat) : Option Moment :=
  if h : secs + nanos / Nat.pow 10 9 < Nat.pow 2 63 then
    some ⟨secs + nanos / Nat.pow 10 9, nanos % Nat.pow 10 9, h, Nat.mod_lt _ (by decide)⟩
  else
    none

/-- A moment is the moment of its parts. -/
theorem ofParts?_secs_nanos (m : Moment) : ofParts? m.secs m.nanos = some m := by
  obtain ⟨secs, nanos, hs, hn⟩ := m
  have hq : nanos / Nat.pow 10 9 = 0 := Nat.div_eq_of_lt hn
  have hr : nanos % Nat.pow 10 9 = nanos := Nat.mod_eq_of_lt hn
  simp only [ofParts?, hq, hr, Nat.add_zero, dif_pos hs]

end Moment

end Registrar
