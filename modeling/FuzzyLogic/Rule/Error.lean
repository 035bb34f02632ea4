set_option autoImplicit false

/-! # Why a rule is refused

Each error names the first thing in the text of a rule that keeps it from being one. Its wording
ends with the whole text on a line of its own. -/

namespace FuzzyLogic.Rule

/-- What the grammar asks for at some point of a rule. -/
inductive Expectation where
  /-- The subject of a clause, or a parenthesis that opens. -/
  | subject
  /-- The word between the subject of a clause and its label. -/
  | isWord
  | label
  /-- Whatever may follow a complete clause. -/
  | operator
  deriving Repr, DecidableEq

/-- The wording of an expectation. -/
def Expectation.describe : Expectation → String
  | subject => "a linguistic variable or '('"
  | isWord => "IS"
  | label => "a linguistic label"
  | operator => "AND, OR, ')' or THEN"

/-- The first thing that is wrong with a rule. -/
inductive Error where
  | missingIf
  | missingThen
  | unknownVariable (name : String)
  | unknownLabel (owner label : String)
  | unbalancedParenthesis
  | consequentMustBeVariable (token : String)
  | consequentMustBeSingleClause (token : String)
  | emptyAntecedent
  | missingConsequent
  | unexpectedToken (token : String) (expected : Expectation)
  deriving Repr, DecidableEq

/-- The wording of an error without the text of the rule. -/
def Error.summary : Error → String
  | missingIf => "A fuzzy rule must start with an IF statement."
  | missingThen => "Missing the consequent (THEN) statement."
  | unknownVariable name => "Linguistic variable '" ++ name ++ "' was not found in the database."
  | unknownLabel owner label =>
    "Linguistic label '" ++ label ++ "' was not found on variable '" ++ owner ++ "'."
  | unbalancedParenthesis => "Unbalanced parenthesis."
  | consequentMustBeVariable token =>
    "Linguistic variable expected after THEN, got '" ++ token ++ "'."
  | consequentMustBeSingleClause token =>
    "The consequent must be a single clause, got extra '" ++ token ++ "'."
  | emptyAntecedent => "The antecedent (IF part) has no clauses."
  | missingConsequent => "The consequent (THEN part) must be '<variable> is <label>'."
  | unexpectedToken token expected =>
    "Unexpected token '" ++ token ++ "', expected " ++ expected.describe ++ "."

/-- The wording of an error in the rule `text`. -/
def Error.message (e : Error) (text : String) : String :=
  e.summary ++ "\n  >> " ++ text

end FuzzyLogic.Rule
