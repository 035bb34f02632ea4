import FuzzyLogic.CommandLine.Loading

set_option autoImplicit false

/-! # Listing a model

The variables of a model with their labels, and the rules with their programs. Once inputs are given
the degrees of the labels and the strengths of the rules stand beside them. -/

namespace FuzzyLogic.CommandLine

/-! ## Variables -/

/-- The color of a degree on a terminal: green from a half on, yellow from a fifth on, grey
below. -/
def colorCode (degree : Float) : String :=
  if 0.5 ≤ degree then "\x1b[32m"
  else if 0.2 ≤ degree then "\x1b[33m"
  else "\x1b[90m"

/-- The name of a label with the degree of the current input, colored on a terminal. -/
def labelWithDegree (terminal : Bool) (name : String) (degree : Float) : String :=
  let text := name ++ "(" ++ Decimal.fixed 2 degree ++ ")"
  if terminal then colorCode degree ++ text ++ "\x1b[0m" else text

/-- The range of a variable. -/
def rangeText (v : LinguisticVariable Float) : String :=
  "[" ++ Decimal.numeral v.lower ++ "," ++ Decimal.numeral v.upper ++ "]"

/-- A variable with its labels. -/
def variableLine (name : String) (v : LinguisticVariable Float) : String :=
  "  " ++ name ++ " " ++ rangeText v ++ " -> labels: " ++ ", ".intercalate v.labels.names

/-- A variable with its input and the degrees of its labels. -/
def variableLineAtInput (terminal : Bool) (name : String) (v : LinguisticVariable Float) :
    Except Fault String := do
  let parts ← v.labels.objects.mapM fun l => do
    let degree ← l.membership v.input
    return labelWithDegree terminal l.name degree
  return "  " ++ name ++ " " ++ rangeText v ++ " = " ++ Decimal.general v.input ++ " -> "
    ++ ", ".intercalate parts

/-! ## Rules -/

/-- A rule with its program. -/
def ruleLines (name : String) (r : Rule Float) (suffix : String) : List String :=
  ["  " ++ name ++ ": " ++ r.text ++ suffix, "      postfix: " ++ r.programText]

/-- A rule with its strength, unless the strength is below the least one asked for. -/
def ruleLinesAtInput (m : Model Float) (least : Option Float) (name : String) (r : Rule Float) :
    Except Fault (List String) := do
  let strength ← m.strength r
  match least with
  | some least => if strength < least then return []
  | none => pure ()
  return ruleLines name r ("  α=" ++ Decimal.fixed 4 strength)

/-- The line in the place of the rules when there are none. -/
def noRulesLine : String :=
  "  (no rules to show with these filters)"

/-! ## The whole listing -/

/-- Lists the variables and rules of the model, with degrees and strengths if inputs are given. -/
def showModel (env : Environment) (options : Options) : Except Failure (List String) := do
  let m ← loadModel env options "at"
  let least ← match options.get? "min_alpha" with
    | some v => onValue (Assignment.toNumber v)
    | none => pure 0.0
  let least := if options.isSet "fired_only" then some least else none
  let variableLines ←
    if options.isSet "at" then
      onFault (m.databaseEntries.mapM fun (name, v) => variableLineAtInput env.terminal name v)
    else pure (m.databaseEntries.map fun (name, v) => variableLine name v)
  let rules ←
    if options.isSet "at" then
      onFault (m.rules.entries.mapM fun (name, r) => ruleLinesAtInput m least name r)
    else pure (m.rules.entries.map fun (name, r) => ruleLines name r "")
  let rules := rules.flatten
  return ["Variables:"] ++ variableLines
    ++ ["Rules (tnorm=" ++ m.tnorm ++ ", snorm=" ++ m.snorm ++ "):"]
    ++ (if rules.isEmpty then [noRulesLine] else rules)

end FuzzyLogic.CommandLine
