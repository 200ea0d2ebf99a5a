import Registrar.Text.Basic

/-!
# Single-precision numbers

Binary floating-point numbers of 32 bits, as exact data: a finite number is a sign, a mantissa below
2^24 and an exponent of two from -149 to 104, where the mantissa reaches 2^23 unless the exponent is
the least one. All arithmetic is exact, on natural numbers; rounding goes to the nearest number and
from a midpoint to the even mantissa.
-/

namespace Registrar

/-- A binary floating-point number of 32 bits. -/
inductive Single
  /-- The number `mantissa * 2 ^ exponent`, with a sign also for zero. -/
  | finite (negative : Bool) (mantissa : Nat) (exponent : Int)
  | infinite (negative : Bool)
  | nan
deriving DecidableEq, Repr

namespace Single

/-- The least exponent of a finite number. -/
def leastExponent : Int := -149

/-- The greatest exponent of a finite number. -/
def greatestExponent : Int := 104

/-- The number is finite. -/
def isFinite : Single → Bool
  | finite .. => true
  | _ => false

/-- Zero, without a sign. -/
def zero : Single :=
  finite false 0 leastExponent

/-- A quotient of natural numbers rounded to the nearest one, a half to the even neighbour. -/
def roundDiv (num den : Nat) : Nat :=
  let quotient := num / den
  let twice := 2 * (num % den)
  if twice < den then quotient
  else if den < twice then quotient + 1
  else quotient + quotient % 2

/-- The quotient of `num` and `den * base ^ exponent` as a quotient of natural numbers. -/
def scaleDown (base : Nat) (exponent : Int) (num den : Nat) : Nat × Nat :=
  match exponent with
  | .ofNat e => (num, den * Nat.pow base e)
  | .negSucc e => (num * Nat.pow base (e + 1), den)

/-- The exponent of the greatest power of two that is at most `num / den`, for positive numbers. -/
def floorLog2 (num den : Nat) : Int :=
  let guess : Int := (num.log2 : Int) - (den.log2 : Int)
  let (n, d) := scaleDown 2 guess num den
  if n < d then guess - 1 else guess

/-- The number nearest to `num / den`, with the given sign. -/
def ofRatio (negative : Bool) (num den : Nat) : Single :=
  if num = 0 then
    finite negative 0 leastExponent
  else
    let exponent := max leastExponent (floorLog2 num den - 23)
    let (n, d) := scaleDown 2 exponent num den
    let mantissa := roundDiv n d
    let (mantissa, exponent) :=
      if mantissa = Nat.pow 2 24 then (Nat.pow 2 23, exponent + 1) else (mantissa, exponent)
    if greatestExponent < exponent then infinite negative
    else finite negative mantissa exponent

end Single

end Registrar
