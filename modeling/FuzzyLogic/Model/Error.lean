import FuzzyLogic.Membership
import FuzzyLogic.Norm
import FuzzyLogic.Rule.Error

set_option autoImplicit false

/-! # Why a model refuses an operation

Every operation on a model either succeeds or names one reason why it does not. A fault of
evaluation is among the reasons, apart from the others: it says that the operation could not be
computed, not that it was not allowed. -/

namespace FuzzyLogic

/-- The reason why an operation on a model with scalars of type `α` is refused. -/
inductive ModelError (α : Type) where
  | rule (error : Rule.Error) (text : String)
  | shape (error : ShapeError α)
  | emptyRange (name : String) (lower upper : α)
  | duplicateVariable (name : String)
  | unknownVariable (name : String)
  | duplicateLabel (label owner : String)
  | unknownLabel (label owner : String)
  | inputOutside (x : α) (name : String) (lower upper : α)
  | duplicateRule (name : String)
  | unknownRule (name : String)
  | unsupportedNorm (name : String)
  | unsupportedConorm (name : String)
  | fault (f : Fault)
  deriving Repr

/-- The wording of the reason. -/
def ModelError.message : ModelError Float → String
  | rule error text => error.message text
  | shape error => error.message
  | emptyRange name lower upper =>
    "var " ++ name ++ ": vmin < vmax required (got " ++ Decimal.numeral lower ++ " >= "
      ++ Decimal.numeral upper ++ ")"
  | duplicateVariable name => "Duplicate variable: " ++ name
  | unknownVariable name => "Unknown variable: " ++ name
  | duplicateLabel label owner =>
    "Duplicate label '" ++ label ++ "' on variable '" ++ owner ++ "'"
  | unknownLabel label owner => "Unknown label '" ++ label ++ "' on variable '" ++ owner ++ "'"
  | inputOutside x name lower upper =>
    "Input " ++ Decimal.numeral x ++ " for '" ++ name ++ "' is outside ["
      ++ Decimal.numeral lower ++ ", " ++ Decimal.numeral upper ++ "]"
  | duplicateRule name => "Duplicate rule: " ++ name
  | unknownRule name => "Unknown rule: " ++ name
  | unsupportedNorm name =>
    "tnorm: unsupported '" ++ name ++ "' (choose from "
      ++ ", ".intercalate (TNorm.all.map TNorm.name) ++ ")"
  | unsupportedConorm name =>
    "snorm: unsupported '" ++ name ++ "' (choose from "
      ++ ", ".intercalate (SNorm.all.map SNorm.name) ++ ")"
  | fault f => f.message

variable {α : Type}

/-- The stock t-norm with the given name. -/
def TNorm.named (name : String) : Except (ModelError α) TNorm :=
  match TNorm.ofName? name with
  | some n => .ok n
  | none => .error (.unsupportedNorm name)

/-- The stock s-norm with the given name. -/
def SNorm.named (name : String) : Except (ModelError α) SNorm :=
  match SNorm.ofName? name with
  | some n => .ok n
  | none => .error (.unsupportedConorm name)

/-- A computation that may meet a fault, as a part of an operation. -/
def ModelError.lift {β : Type} : Except Fault β → Except (ModelError α) β
  | .ok b => .ok b
  | .error f => .error (.fault f)

end FuzzyLogic
