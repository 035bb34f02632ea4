import FuzzyLogic.Decimal.Numeral
import FuzzyLogic.Scalar
import FuzzyLogic.Text.LowerCase
import FuzzyLogic.Text.Quoted

set_option autoImplicit false

/-! # Membership functions

A membership function gives the degree to which a number belongs to a fuzzy set. The functions come
in five shapes. Four are piecewise linear: a triangle, a trapezoid, and two shoulders that stay at
one on one side. The fifth is the bell curve. A function is built from the name of its shape and a
list of parameters, which have to stand in the order that the shape requires. -/

namespace FuzzyLogic

/-! ## Shapes -/

/-- The shapes of membership functions. -/
inductive Shape where
  | triangle
  | trapezoid
  | bell
  | leftShoulder
  | rightShoulder
  deriving Repr, DecidableEq

namespace Shape

/-- All shapes. -/
def all : List Shape := [triangle, trapezoid, bell, leftShoulder, rightShoulder]

/-- The name of a shape in a model. -/
def name : Shape → String
  | triangle => "tri"
  | trapezoid => "trap"
  | bell => "gauss"
  | leftShoulder => "lshoulder"
  | rightShoulder => "rshoulder"

/-- The number of parameters of a shape. -/
def arity : Shape → Nat
  | triangle => 3
  | trapezoid => 4
  | bell => 2
  | leftShoulder => 2
  | rightShoulder => 2

/-- The shape with the given lower-case name. -/
def ofName? (s : String) : Option Shape :=
  all.find? fun shape => shape.name == s

end Shape

/-- A function from numbers to degrees of membership. -/
inductive MembershipFunction (α : Type) where
  /-- Rises from `left` to `peak` and falls to `right`. -/
  | triangle (left peak right : α)
  /-- Rises from `left` to `coreLeft`, stays at one, and falls from `coreRight` to `right`. -/
  | trapezoid (left coreLeft coreRight right : α)
  /-- Stays at one up to `core` and falls to `foot`. -/
  | leftShoulder (core foot : α)
  /-- Rises from `foot` to `core` and stays at one. -/
  | rightShoulder (foot core : α)
  /-- The bell curve around `center`. -/
  | bell (center width : α)
  deriving Repr, BEq

/-- A closed interval that may be unbounded on either side. -/
structure Extent (α : Type) where
  lower : Option α
  upper : Option α

/-- Why no membership function can be built. -/
inductive ShapeError (α : Type) where
  | unknownShape (name : String)
  | wrongArity (shape : Shape) (got : Nat)
  /-- A parameter that spells no number. -/
  | notANumber (text : String)
  | triangleOrder (left peak right : α)
  | trapezoidOrder
  | leftShoulderOrder
  | rightShoulderOrder
  | bellWidth
  deriving Repr

/-! ## Wording -/

/-- The complaint about something that spells no number, given as it is shown. -/
def notNumericMessage (shown : String) : String :=
  "could not convert string to float: " ++ shown

/-- The complaint about a text that spells no number. -/
def notANumberMessage (text : String) : String :=
  notNumericMessage (Text.quoted text)

/-- The wording of the error. -/
def ShapeError.message : ShapeError Float → String
  | unknownShape name => "Unknown MF shape: " ++ name
  | wrongArity shape got =>
    shape.name ++ ": expected " ++ toString shape.arity ++ " parameters, got " ++ toString got
  | notANumber text => notANumberMessage text
  | triangleOrder a b c =>
    "tri: a <= b <= c required (got " ++ Decimal.numeral a ++ ", " ++ Decimal.numeral b ++ ", "
      ++ Decimal.numeral c ++ ")"
  | trapezoidOrder => "trap: a <= b <= c <= d required"
  | leftShoulderOrder => "lshoulder: b < c required"
  | rightShoulderOrder => "rshoulder: a < b required"
  | bellWidth => "gauss: sigma > 0 required"

namespace MembershipFunction

variable {α : Type} [Scalar α]

open Scalar

/-! ## Building -/

/-- The triangle, whose corners have to be in order. -/
def triangle? (a b c : α) : Except (ShapeError α) (MembershipFunction α) :=
  if a ≤ b ∧ b ≤ c then .ok (.triangle a b c) else .error (.triangleOrder a b c)

/-- The trapezoid, whose corners have to be in order. -/
def trapezoid? (a b c d : α) : Except (ShapeError α) (MembershipFunction α) :=
  if a ≤ b ∧ b ≤ c ∧ c ≤ d then .ok (.trapezoid a b c d) else .error .trapezoidOrder

/-- The left shoulder, whose slope needs a width. -/
def leftShoulder? (core foot : α) : Except (ShapeError α) (MembershipFunction α) :=
  if core < foot then .ok (.leftShoulder core foot) else .error .leftShoulderOrder

/-- The right shoulder, whose slope needs a width. -/
def rightShoulder? (foot core : α) : Except (ShapeError α) (MembershipFunction α) :=
  if foot < core then .ok (.rightShoulder foot core) else .error .rightShoulderOrder

/-- The bell curve, whose width must not be zero or below. -/
def bell? (center width : α) : Except (ShapeError α) (MembershipFunction α) :=
  if width ≤ 0 then .error .bellWidth else .ok (.bell center width)

/-- The function of a shape with parameters that are all known to be numbers. -/
def ofShape? (shape : Shape) (params : List α) :
    Except (ShapeError α) (MembershipFunction α) :=
  match shape, params with
  | .triangle, [a, b, c] => triangle? a b c
  | .trapezoid, [a, b, c, d] => trapezoid? a b c d
  | .bell, [center, width] => bell? center width
  | .leftShoulder, [core, foot] => leftShoulder? core foot
  | .rightShoulder, [foot, core] => rightShoulder? foot core
  | shape, params => .error (.wrongArity shape params.length)

/-- The function of a named shape. Each parameter is a number or a text that spells none. The shape
is checked first, then the number of parameters, then each parameter, and last their order. -/
def make (shapeName : String) (params : List (Except String α)) :
    Except (ShapeError α) (MembershipFunction α) :=
  let name := Text.lower shapeName
  match Shape.ofName? name with
  | none => .error (.unknownShape name)
  | some shape =>
    if params.length = shape.arity then do
      let numbers ← params.mapM fun
        | .ok x => .ok x
        | .error text => .error (.notANumber text)
      ofShape? shape numbers
    else .error (.wrongArity shape params.length)

/-! ## Degrees -/

/-- The degree of membership of `x`. The tests stand in the order in which an undefined `x`, for
which every comparison fails, has to meet them. -/
def degree (f : MembershipFunction α) (x : α) : Except Fault α :=
  match f with
  | .triangle a b c =>
    if x ≤ a ∨ c ≤ x then .ok (if x == b then 1 else 0)
    else if x == b then .ok 1
    else if x < b then divide (x - a) (b - a)
    else divide (c - x) (c - b)
  | .trapezoid a b c d =>
    if b ≤ x ∧ x ≤ c then .ok 1
    else if x ≤ a ∨ d ≤ x then .ok 0
    else if x < b then divide (x - a) (b - a)
    else divide (d - x) (d - c)
  | .leftShoulder b c =>
    if x ≤ b then .ok 1
    else if c ≤ x then .ok 0
    else divide (c - x) (c - b)
  | .rightShoulder a b =>
    if b ≤ x then .ok 1
    else if x ≤ a then .ok 0
    else divide (x - a) (b - a)
  | .bell center width => do
    let z ← divide (x - center) width
    .ok (clampUnit (exp ((0 - 1 / two) * z * z)))

/-- The numbers outside of which the degree is zero, or for the bell curve negligible. -/
def support (f : MembershipFunction α) : Extent α :=
  match f with
  | .triangle a _ c => ⟨some a, some c⟩
  | .trapezoid a _ _ d => ⟨some a, some d⟩
  | .leftShoulder _ c => ⟨none, some c⟩
  | .rightShoulder a _ => ⟨some a, none⟩
  | .bell center width => ⟨some (center - four * width), some (center + four * width)⟩

end MembershipFunction

end FuzzyLogic
