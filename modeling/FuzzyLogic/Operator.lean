set_option autoImplicit false

/-! # The operators of a rule

An antecedent combines its clauses with AND and OR. AND binds tighter. A fault is what goes wrong
when a rule is evaluated: a quotient without a value, a program that does not fit its stack, or a
clause that refers to nothing. -/

namespace FuzzyLogic

/-- The two operators that combine the clauses of an antecedent. -/
inductive Operator where
  | or
  | and
  deriving Repr, DecidableEq

/-- The operator with the greater priority binds tighter. -/
def Operator.priority : Operator → Nat
  | .or => 1
  | .and => 2

/-- The operator as it is written in a program. -/
def Operator.name : Operator → String
  | .or => "OR"
  | .and => "AND"

/-- What goes wrong while a rule is evaluated. -/
inductive Fault where
  | divisionByZero
  /-- An operator that found fewer than two values on the stack. -/
  | underflow (operator : Operator)
  /-- A program that did not leave exactly one value. -/
  | leftover (count : Nat)
  /-- A clause without a label, or of a variable that does not exist. -/
  | strayClause
  deriving Repr, DecidableEq

/-- The wording of a fault. -/
def Fault.message : Fault → String
  | .divisionByZero => "float division by zero"
  | .underflow operator => "malformed postfix program: stack underflow at " ++ operator.name
  | .leftover count => "malformed postfix program: " ++ toString count ++ " values left on the stack"
  | .strayClause => "a clause refers to nothing"

end FuzzyLogic
