set_option autoImplicit false

/-! # Floating-point numbers taken apart

A finite floating-point number is a sign and an exact multiple of a power of two. Printing works on
that exact value, so no digit of the output depends on floating-point arithmetic. -/

namespace FuzzyLogic.Decimal

/-- A floating-point number by its exact value. -/
inductive Parts where
  | nan
  | infinite (negative : Bool)
  /-- The number `mantissa * 2 ^ exponent`, negated if `negative`. -/
  | finite (negative : Bool) (mantissa : Nat) (exponent : Int)
  deriving Repr, DecidableEq

/-- The parts of a double: subnormal numbers have the least exponent and no hidden bit. -/
def Parts.ofFloat (x : Float) : Parts :=
  let bits : Nat := x.toBits.toNat
  let negative := bits / Nat.pow 2 63 == 1
  let biased : Nat := bits / Nat.pow 2 52 % Nat.pow 2 11
  let fraction : Nat := bits % Nat.pow 2 52
  if biased == 2047 then
    if fraction == 0 then .infinite negative else .nan
  else if biased == 0 then .finite negative fraction (-1074)
  else .finite negative (fraction + Nat.pow 2 52) ((biased : Int) - 1075)

/-! ## Exact ratios -/

/-- A ratio of natural numbers, with a positive denominator. -/
structure Ratio where
  num : Nat
  den : Nat
  den_pos : 0 < den

/-- The ratio `n * base ^ exponent`. -/
def Ratio.scaled (n base : Nat) (h : 0 < base) (exponent : Int) : Ratio :=
  if 0 ≤ exponent then ⟨n * Nat.pow base exponent.toNat, 1, Nat.one_pos⟩
  else ⟨n, Nat.pow base (-exponent).toNat, Nat.pow_pos h⟩

/-- The product of two ratios. -/
def Ratio.mul (a b : Ratio) : Ratio :=
  ⟨a.num * b.num, a.den * b.den, Nat.mul_pos a.den_pos b.den_pos⟩

theorem ten_pos : 0 < 10 := Nat.succ_pos 9

/-- The ratio divided by `10 ^ exponent`. -/
def Ratio.divTenPow (a : Ratio) (exponent : Int) : Ratio :=
  a.mul (.scaled 1 10 ten_pos (-exponent))

/-- The greatest natural number that is at most the ratio. -/
def Ratio.floor (a : Ratio) : Nat :=
  a.num / a.den

/-- The natural number nearest to the ratio; a half goes to the even neighbour. -/
def Ratio.round (a : Ratio) : Nat :=
  let low := a.num / a.den
  let rest := a.num % a.den
  if 2 * rest < a.den || (2 * rest == a.den && low % 2 == 0) then low else low + 1

/-! ## Decimal magnitude -/

/-- The number of decimal digits of `n`. -/
def digitCount (n : Nat) : Nat :=
  (Nat.toDigits 10 n).length

/-- The exponent `e` of a positive ratio: `10 ^ e` is at most the ratio and `10 ^ (e + 1)` above
it. -/
def Ratio.magnitude (a : Ratio) : Int :=
  if a.den ≤ a.num then (digitCount (a.num / a.den) : Int) - 1
  else
    let k := digitCount (a.den / a.num)
    if a.den ≤ a.num * Nat.pow 10 (k - 1) then -((k : Int) - 1) else -(k : Int)

end FuzzyLogic.Decimal
