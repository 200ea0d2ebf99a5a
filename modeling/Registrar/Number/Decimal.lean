import Registrar.Number.Single

/-!
# Decimal forms of numbers

Reading and writing single-precision numbers in base ten. Reading rounds the decimal exactly.
Writing takes the fewest digits that read back as the same number and, of the decimals with that
many digits, the nearest one. What is left open is a layout's to say: where a midpoint goes, and for
which positions of the point the digits are written out.
-/

namespace Registrar

/-- The number `significand * 10 ^ exponent`. -/
structure Decimal where
  significand : Nat
  exponent : Int
deriving DecidableEq, Repr

namespace Decimal

/-- An exponent that makes up all of a text: an optional sign and digits. -/
def readExponent? (t : Text) : Option Int :=
  match t with
  | '-' :: digits => (Text.digitsValue? 10 digits).map fun n => -n
  | '+' :: digits => (Text.digitsValue? 10 digits).map fun n => n
  | digits => (Text.digitsValue? 10 digits).map fun n => n

/-- A decimal that makes up all of a text: digits with at most one point among them, at least one
digit, and an optional exponent. -/
def read? (t : Text) : Option Decimal :=
  let whole := t.takeWhile Char.isDigit
  let rest := t.dropWhile Char.isDigit
  let (fraction, rest) :=
    match rest with
    | '.' :: r => (r.takeWhile Char.isDigit, r.dropWhile Char.isDigit)
    | r => ([], r)
  let exponent? :=
    match rest with
    | [] => some 0
    | 'e' :: r => readExponent? r
    | 'E' :: r => readExponent? r
    | _ => none
  match Text.digitsValue? 10 (whole ++ fraction), exponent? with
  | some n, some e => some ⟨n, e - fraction.length⟩
  | _, _ => none

/-- The single-precision number nearest to a decimal. Decimals past the range of finite numbers on
either side are settled by the position of their first digit. -/
def toSingle (negative : Bool) (d : Decimal) : Single :=
  let point : Int := (Text.ofNat d.significand).length + d.exponent
  if d.significand = 0 ∨ point < -60 then Single.finite negative 0 Single.leastExponent
  else if 60 < point then Single.infinite negative
  else
    let (num, den) := Single.scaleDown 10 (-d.exponent) d.significand 1
    Single.ofRatio negative num den

end Decimal

namespace Single

/-- The number that makes up all of a text: an optional sign, and a decimal or the word for an
infinite value or for none, in any case. -/
def read? (t : Text) : Option Single :=
  let (negative, magnitude) :=
    match t with
    | '-' :: r => (true, r)
    | '+' :: r => (false, r)
    | r => (false, r)
  match Decimal.read? magnitude with
  | some d => some (d.toSingle negative)
  | none =>
    let word := Text.lower magnitude
    if word = "inf" ∨ word = "infinity" then some (infinite negative)
    else if word = "nan" then some nan
    else none

/-! ## The shortest decimal -/

/-- Is `c * 10 ^ i` among the reals that round to `mantissa * 2 ^ exponent`? They reach half a step
to either side, a quarter below a power of two, and the ends count when the mantissa is even. In
quarter steps this compares natural numbers. -/
def readsBack (mantissa : Nat) (exponent : Int) (c : Nat) (i : Int) : Bool :=
  let (num, den) := scaleDown 10 (-i) c 1
  let (num, den) := scaleDown 2 (exponent - 2) num den
  let below := if mantissa = Nat.pow 2 23 ∧ leastExponent < exponent then 1 else 2
  let low := (4 * mantissa - below) * den
  let high := (4 * mantissa + 2) * den
  if mantissa % 2 = 0 then low ≤ num && num ≤ high else low < num && num < high

/-- The number `mantissa * 2 ^ exponent` in units of `10 ^ i`, as a quotient. -/
def inUnits (mantissa : Nat) (exponent i : Int) : Nat × Nat :=
  let (num, den) := scaleDown 2 (-exponent) mantissa 1
  scaleDown 10 i num den

/-- The least `k` from -45 on with `mantissa * 2 ^ exponent < 10 ^ k`, which is where the point
stands before the first digit. Finite numbers are below `10 ^ 39`. -/
def pointPosition (mantissa : Nat) (exponent : Int) : Int :=
  let reaches (j : Nat) : Bool :=
    let (num, den) := inUnits mantissa exponent ((j : Int) - 45)
    num < den
  (((List.range 84).find? reaches).getD 84 : Nat) - 45

/-- Where a number goes that lies midway between two decimals. -/
inductive Tie
  | up
  | even
deriving DecidableEq, Repr

/-- Is the upper of two neighbours the one to take first, where the number lies `num / den` units
above zero? -/
def Tie.prefersUpper (tie : Tie) (num den : Nat) : Bool :=
  let twice := 2 * (num % den)
  den < twice || (den == twice && (tie == .up || num / den % 2 == 1))

/-- Of the number's two neighbours among the multiples of `10 ^ i`, the nearer one that reads
back. -/
def neighbour? (tie : Tie) (mantissa : Nat) (exponent i : Int) : Option Decimal :=
  let (num, den) := inUnits mantissa exponent i
  let c := num / den
  let nearerFirst := if tie.prefersUpper num den then [c + 1, c] else [c, c + 1]
  (nearerFirst.find? fun c => readsBack mantissa exponent c i).map fun c => ⟨c, i⟩

/-- The decimal with the fewest digits that reads back as `mantissa * 2 ^ exponent`. Nine digits
always do. -/
def shortest (tie : Tie) (mantissa : Nat) (exponent : Int) : Decimal :=
  let point := pointPosition mantissa exponent
  let found := (List.range 9).findSome? fun n =>
    neighbour? tie mantissa exponent (point - (n + 1 : Nat))
  found.getD ⟨0, 0⟩

end Single

/-! ## Layout -/

/-- How a format chooses between two decimals, where it writes digits out, and how it marks a power
of ten. -/
structure DecimalLayout where
  tie : Single.Tie
  /-- The least position of the point, counted from before the first digit, that is written out. -/
  plainFrom : Int
  /-- The greatest position of the point that is written out. -/
  plainTo : Int
  /-- A power of ten that is not negative has a plus sign. -/
  plusSign : Bool
deriving DecidableEq, Repr

namespace DecimalLayout

/-- A row of zeros. -/
def zeros (n : Nat) : Text :=
  List.replicate n '0'

/-- The digits written out with the point after the first `point` of them. There is always a digit
on either side of it. -/
def plain (digits : Text) (point : Int) : Text :=
  match point with
  | .ofNat (k + 1) =>
    let fraction := digits.drop (k + 1)
    digits.take (k + 1) ++ zeros (k + 1 - digits.length) ++ "." ++
      (if fraction = [] then ['0'] else fraction)
  | _ => "0." ++ zeros (-point).toNat ++ digits

/-- One digit before the point, and the power of ten. -/
def scientific (layout : DecimalLayout) (digits : Text) (point : Int) : Text :=
  let fraction := digits.drop 1
  let sign : Text := if layout.plusSign ∧ 1 ≤ point then "+" else ""
  digits.take 1 ++ (if fraction = [] then [] else '.' :: fraction) ++ "e" ++ sign ++
    Text.ofInt (point - 1)

/-- The text of a finite number. -/
def write (layout : DecimalLayout) (negative : Bool) (mantissa : Nat) (exponent : Int) : Text :=
  let sign : Text := if negative then "-" else ""
  if mantissa = 0 then
    sign ++ "0.0"
  else
    let d := Single.shortest layout.tie mantissa exponent
    let all := Text.ofNat d.significand
    let point : Int := all.length + d.exponent
    let digits := (Text.splitTail (· == '0') all).1
    if layout.plainFrom ≤ point ∧ point ≤ layout.plainTo then
      sign ++ plain digits point
    else
      sign ++ layout.scientific digits point

end DecimalLayout

end Registrar
