import FuzzyLogic.Operator

set_option autoImplicit false

/-! # Scalars

Degrees of truth, inputs and ranges are numbers of one type, the scalars. A program runs on
floating-point numbers; nothing below depends on that choice, so that the same definitions also
speak about exact numbers. Comparison follows the scalar type: a floating-point number that is
undefined is neither below nor above nor equal to anything, and each branch of a definition says
what happens to it. -/

namespace FuzzyLogic

/-- The arithmetic, the comparisons and the exponential function that fuzzy rules need. -/
class Scalar (α : Type) extends
    Zero α, One α, Add α, Sub α, Mul α, Div α, LT α, LE α, BEq α where
  [decideLT : DecidableLT α]
  [decideLE : DecidableLE α]
  exp : α → α

attribute [reducible, instance] Scalar.decideLT Scalar.decideLE

instance : Scalar Float where
  zero := 0.0
  one := 1.0
  exp := Float.exp

namespace Scalar

variable {α : Type} [Scalar α]

/-- The scalar two. -/
def two : α := 1 + 1

/-- The scalar four. -/
def four : α := two + two

/-- The quotient, which does not exist for the divisor zero. -/
def divide (x y : α) : Except Fault α :=
  if y == 0 then .error .divisionByZero else .ok (x / y)

/-- The lesser of two scalars; the first unless the second is below it. -/
def lesser (x y : α) : α :=
  if y < x then y else x

/-- The greater of two scalars; the first unless the second is above it. -/
def greater (x y : α) : α :=
  if x < y then y else x

/-- The nearest scalar between zero and one. -/
def clampUnit (x : α) : α :=
  if x ≤ 0 then 0 else if 1 ≤ x then 1 else x

/-- Whether the scalar is undefined: only such a scalar differs from itself. -/
def isUndefined (x : α) : Bool :=
  !(x == x)

end Scalar

end FuzzyLogic
