import FuzzyLogic.Decimal.Binary

set_option autoImplicit false

/-! # The shortest decimal that reads back

The decimals that read back as a given floating-point number fill an interval around it: half the
distance to each neighbour, both ends included exactly if the mantissa is even. Among the decimals
in the interval `shortest` takes the one with the fewest digits, of these the nearest to the
number, and of two equally near ones the even one. Seventeen digits always suffice. -/

namespace FuzzyLogic.Decimal

/-- The positive decimal `coefficient * 10 ^ exponent`. -/
structure Digits where
  coefficient : Nat
  exponent : Int
  deriving Repr, DecidableEq

/-- The same decimal without trailing zeros in its coefficient. -/
def Digits.strip (d : Digits) : Digits :=
  let rec go : Nat → Nat → Int → Digits
    | 0, c, e => ⟨c, e⟩
    | fuel + 1, c, e => if c % 10 == 0 && c != 0 then go fuel (c / 10) (e + 1) else ⟨c, e⟩
  go (digitCount d.coefficient) d.coefficient d.exponent

/-- The interval of numbers that round to `mantissa * 2 ^ exponent`. -/
structure ReadBack where
  low : Ratio
  high : Ratio
  closed : Bool

/-- Below a power of two the neighbour is only half as far away, except at the least exponent. -/
def ReadBack.of (mantissa : Nat) (exponent : Int) : ReadBack :=
  let below := if mantissa == Nat.pow 2 52 && exponent > -1074 then 1 else 2
  { low := .scaled (4 * mantissa - below) 2 Nat.two_pos (exponent - 2)
    high := .scaled (4 * mantissa + 2) 2 Nat.two_pos (exponent - 2)
    closed := mantissa % 2 == 0 }

/-- Whether the decimal lies in the interval. -/
def ReadBack.has (r : ReadBack) (d : Digits) : Bool :=
  let x := Ratio.scaled d.coefficient 10 ten_pos d.exponent
  let lowGap := (r.low.num * x.den, x.num * r.low.den)
  let highGap := (x.num * r.high.den, r.high.num * x.den)
  if r.closed then lowGap.1 ≤ lowGap.2 && highGap.1 ≤ highGap.2
  else lowGap.1 < lowGap.2 && highGap.1 < highGap.2

/-- The best decimal with `count` digits that reads back as the number, if there is one. -/
def withDigits? (value : Ratio) (interval : ReadBack) (magnitude : Int) (count : Nat) :
    Option Digits :=
  let exponent := magnitude - count + 1
  let scaled := value.divTenPow exponent
  let nearest := scaled.round
  let other := if nearest == scaled.floor then nearest + 1 else nearest - 1
  if interval.has ⟨nearest, exponent⟩ then some ⟨nearest, exponent⟩
  else if interval.has ⟨other, exponent⟩ then some ⟨other, exponent⟩
  else none

/-- The shortest decimal that reads back as the positive number `mantissa * 2 ^ exponent`. -/
def shortest (mantissa : Nat) (exponent : Int) : Digits :=
  let value := Ratio.scaled mantissa 2 Nat.two_pos exponent
  let magnitude := value.magnitude
  let interval := ReadBack.of mantissa exponent
  let counts := (List.range 17).map (· + 1)
  match counts.findSome? (withDigits? value interval magnitude) with
  | some d => d.strip
  | none => ⟨(value.divTenPow (magnitude - 16)).round, magnitude - 16⟩

end FuzzyLogic.Decimal
