import FuzzyLogic.Model.Error
import FuzzyLogic.Registry

set_option autoImplicit false

/-! # Linguistic variables

A linguistic variable is a quantity with a range, a current input inside the range, and labels: the
fuzzy sets that stand for words such as *cold*. A label never changes, so it is told apart from a
later one of the same name by its number. -/

namespace FuzzyLogic

/-! ## Labels -/

/-- A named fuzzy set. No two labels of a model have the same number. -/
structure Label (α : Type) where
  id : Nat
  name : String
  function : MembershipFunction α
  deriving Repr

/-- The degree to which `x` belongs to the fuzzy set. -/
def Label.membership {α : Type} [Scalar α] (l : Label α) (x : α) : Except Fault α := do
  let degree ← l.function.degree x
  return Scalar.clampUnit degree

/-! ## Variables -/

/-- A quantity with a range, labels and a current input. -/
structure LinguisticVariable (α : Type) where
  name : String
  lower : α
  upper : α
  labels : Registry (Label α)
  input : α
  deriving Repr

namespace LinguisticVariable

variable {α : Type} [Scalar α]

open Scalar

/-- A variable without labels, whose input is the lower end of its range. -/
def make (name : String) (lower upper : α) : Except (ModelError α) (LinguisticVariable α) :=
  if lower < upper then .ok { name, lower, upper, labels := ∅, input := lower }
  else .error (.emptyRange name lower upper)

/-- Whether `x` is an admissible input. -/
def admits (v : LinguisticVariable α) (x : α) : Bool :=
  !isUndefined x && decide (v.lower ≤ x ∧ x ≤ v.upper)

/-- The variable with another input. -/
def withInput (v : LinguisticVariable α) (x : α) :
    Except (ModelError α) (LinguisticVariable α) :=
  if v.admits x then .ok { v with input := x }
  else .error (.inputOutside x v.name v.lower v.upper)

/-- The end of the range beyond which `x` lies, or `x` inside the range. -/
def clamp (v : LinguisticVariable α) (x : α) : α :=
  greater v.lower (lesser v.upper x)

/-- The variable with one more label. -/
def withLabel (v : LinguisticVariable α) (l : Label α) :
    Except (ModelError α) (LinguisticVariable α) :=
  if v.labels.contains l.name then .error (.duplicateLabel l.name v.name)
  else .ok { v with labels := v.labels.insert l.name l }

/-- The variable without labels. -/
def withoutLabels (v : LinguisticVariable α) : LinguisticVariable α :=
  { v with labels := ∅ }

/-- The degree to which `x`, which need not be in the range, belongs to a label. -/
def labelMembership (v : LinguisticVariable α) (label : String) (x : α) :
    Except (ModelError α) α :=
  match v.labels.get? label with
  | some l => ModelError.lift (l.membership x)
  | none => .error (.unknownLabel label v.name)

end LinguisticVariable

end FuzzyLogic
