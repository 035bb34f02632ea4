import FuzzyLogic.Scalar
import FuzzyLogic.Text.LowerCase

set_option autoImplicit false

/-! # Triangular norms and conorms

A t-norm is the truth function of AND and an s-norm that of OR. The stock ones are known by name in
any letter case; a rule can also be bound to an operator of its own. The quotients of the Hamacher
pair have no value at one corner of the unit square, which is therefore given separately. -/

namespace FuzzyLogic

/-- The stock truth functions of AND. -/
inductive TNorm where
  | minimum
  | product
  | lukasiewicz
  | hamacher
  deriving Repr, DecidableEq

/-- The stock truth functions of OR. -/
inductive SNorm where
  | maximum
  | probabilistic
  | boundedSum
  | hamacher
  deriving Repr, DecidableEq

/-! ## Names -/

namespace TNorm

/-- All stock t-norms. -/
def all : List TNorm := [minimum, product, lukasiewicz, hamacher]

/-- The name of a t-norm in a model. -/
def name : TNorm → String
  | minimum => "min"
  | product => "prod"
  | lukasiewicz => "lukasiewicz"
  | hamacher => "hamacher"

/-- The t-norm with the given name, whatever its letter case. -/
def ofName? (s : String) : Option TNorm :=
  all.find? fun n => n.name == Text.lower s

end TNorm

namespace SNorm

/-- All stock s-norms. -/
def all : List SNorm := [maximum, probabilistic, boundedSum, hamacher]

/-- The name of an s-norm in a model. -/
def name : SNorm → String
  | maximum => "max"
  | probabilistic => "prob"
  | boundedSum => "bsum"
  | hamacher => "hamacher"

/-- The s-norm with the given name, whatever its letter case. -/
def ofName? (s : String) : Option SNorm :=
  all.find? fun n => n.name == Text.lower s

end SNorm

/-! ## Truth functions -/

variable {α : Type} [Scalar α]

open Scalar

/-- The truth value of AND. -/
def TNorm.apply (n : TNorm) (x y : α) : Except Fault α :=
  match n with
  | minimum => .ok (lesser x y)
  | product => .ok (x * y)
  | lukasiewicz => .ok (greater 0 (x + y - 1))
  | hamacher =>
    let divisor := x + y - x * y
    if divisor == 0 then .ok 0 else divide (x * y) divisor

/-- The truth value of OR. -/
def SNorm.apply (n : SNorm) (x y : α) : Except Fault α :=
  match n with
  | maximum => .ok (greater x y)
  | probabilistic => .ok (x + y - x * y)
  | boundedSum => .ok (lesser 1 (x + y))
  | hamacher =>
    let divisor := 1 - x * y
    if divisor == 0 then .ok 1 else divide (x + y - two * x * y) divisor

/-! ## Bindings -/

/-- The operator that a rule is bound to: a stock one or one of the caller's. -/
inductive Binding (κ α : Type) where
  | stock (op : κ)
  | custom (f : α → α → α)

/-- The truth function of a bound AND. -/
def Binding.applyNorm : Binding TNorm α → α → α → Except Fault α
  | .stock n => n.apply
  | .custom f => fun x y => .ok (f x y)

/-- The truth function of a bound OR. -/
def Binding.applyConorm : Binding SNorm α → α → α → Except Fault α
  | .stock n => n.apply
  | .custom f => fun x y => .ok (f x y)

end FuzzyLogic
