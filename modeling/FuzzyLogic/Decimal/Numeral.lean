import FuzzyLogic.Decimal.Shortest

set_option autoImplicit false

/-! # Numerals

The three ways in which a number is written: `numeral` with the fewest digits that read back,
`fixed` with a given number of places, and `general` with six significant digits. The exact binary
value is rounded, a half going to the even neighbour. -/

namespace FuzzyLogic.Decimal

/-! ## Layout -/

/-- A power of ten as an exponent mark: a sign and at least two digits. -/
def exponentMark (e : Int) : String :=
  let digits := toString e.natAbs
  "e" ++ (if e < 0 then "-" else "+") ++ (if digits.length < 2 then "0" ++ digits else digits)

/-- The digits `d₁d₂…` with the point after the first digit, followed by the exponent mark. -/
def scientific (digits : List Char) (exponent : Int) : String :=
  let mantissa := match digits with
    | [] => []
    | [d] => [d]
    | d :: rest => d :: '.' :: rest
  String.ofList mantissa ++ exponentMark exponent

/-- The digits with the decimal point after the first `point` of them, zeros filling the gaps; a
whole number gets no point. -/
def positional (digits : List Char) (point : Int) : String :=
  if point ≤ 0 then
    "0." ++ String.ofList (List.replicate (-point).toNat '0' ++ digits)
  else
    let n := point.toNat
    if digits.length ≤ n then
      String.ofList (digits ++ List.replicate (n - digits.length) '0')
    else String.ofList (digits.take n ++ '.' :: digits.drop n)

/-- A minus sign for negative numbers, negative zero included. -/
def signMark (negative : Bool) : String :=
  if negative then "-" else ""

/-- A decimal with its exponent mark when the first digit stands before the fourth place after
the point or at `10 ^ limit` or above, and in positional notation otherwise. -/
def Digits.layout (d : Digits) (limit : Int) (wholeMark : String) : String :=
  let digits := Nat.toDigits 10 d.coefficient
  let magnitude := d.exponent + digits.length - 1
  if magnitude < -4 || limit ≤ magnitude then scientific digits magnitude
  else
    let text := positional digits (magnitude + 1)
    if digits.length ≤ magnitude + 1 then text ++ wholeMark else text

/-! ## The three notations -/

/-- The fewest digits that read back. Whole numbers end in `.0`; the exponent mark starts at
`10 ^ 16`. -/
def numeral (x : Float) : String :=
  match Parts.ofFloat x with
  | .nan => "nan"
  | .infinite negative => signMark negative ++ "inf"
  | .finite negative 0 _ => signMark negative ++ "0.0"
  | .finite negative m q => signMark negative ++ (shortest m q).layout 16 ".0"

/-- The natural number `n`, taken as so many units of the last of `places` decimal places. -/
def placed (places n : Nat) : String :=
  let digits := Nat.toDigits 10 n
  let padded := List.replicate (places + 1 - digits.length) '0' ++ digits
  if places == 0 then String.ofList padded
  else
    let whole := padded.length - places
    String.ofList (padded.take whole ++ '.' :: padded.drop whole)

/-- The number with `places` decimal places. -/
def fixed (places : Nat) (x : Float) : String :=
  match Parts.ofFloat x with
  | .nan => "nan"
  | .infinite negative => signMark negative ++ "inf"
  | .finite negative m q =>
    signMark negative ++
      placed places ((Ratio.scaled m 2 Nat.two_pos q).divTenPow (-(places : Int))).round

/-- The number with six significant digits, without trailing zeros; the exponent mark starts at a
million. -/
def general (x : Float) : String :=
  match Parts.ofFloat x with
  | .nan => "nan"
  | .infinite negative => signMark negative ++ "inf"
  | .finite negative 0 _ => signMark negative ++ "0"
  | .finite negative m q =>
    let value := Ratio.scaled m 2 Nat.two_pos q
    let exponent := value.magnitude - 5
    signMark negative ++
      (Digits.strip ⟨(value.divTenPow exponent).round, exponent⟩).layout 6 ""

end FuzzyLogic.Decimal
