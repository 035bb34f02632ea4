import FuzzyLogic.CommandLine.Loading
import FuzzyLogic.Data.Json.Writer

set_option autoImplicit false

/-! # Listing the rules that fire

The reports on the rules whose strength reaches a threshold, one to a line or all together as JSON,
for all rules or for a selected one. -/

namespace FuzzyLogic.CommandLine

/-! ## One report -/

/-- A report on a rule in one line. -/
def reportLine (r : RuleReport Float) : String :=
  let clauses := r.antecedent.map fun c =>
    c.subject ++ " is " ++ c.label ++ " (μ=" ++ Decimal.fixed 3 c.degree ++ ")"
  r.rule.name ++ ": alpha=" ++ Decimal.fixed 4 r.strength ++ " -> " ++ r.rule.output.text ++ "  ["
    ++ ", ".intercalate clauses ++ "]"

/-- A data value with the given fields. -/
def record (fields : List (String × Data.Value)) : Data.Value :=
  .mapping (fields.map fun (name, v) => (.text name, v))

/-- A report on a rule as data. -/
def reportValue (r : RuleReport Float) : Data.Value :=
  let clauses := r.antecedent.map fun c => record [
    ("var", .text c.subject),
    ("label", .text c.label),
    ("value", .number c.value),
    ("mu", .number c.degree)]
  record [
    ("rule", .text r.rule.name),
    ("text", .text r.rule.text),
    ("postfix", .text r.rule.programText),
    ("antecedent", .list clauses),
    ("alpha", .number r.strength),
    ("consequent", record [
      ("var", .text r.rule.output.subject.name),
      ("label", .text r.rule.output.label.name)])]

/-! ## All reports -/

/-- The reports on the one rule that an option selects, if it selects one. -/
def selectRule (m : Model Float) (selected : Data.Value) (reports : List (RuleReport Float)) :
    Except Failure (List (RuleReport Float)) :=
  if selected.isBlank then .ok reports
  else
    match selected with
    | .text name => do
      let _ ← onModel (m.rule name)
      return reports.filter fun r => r.rule.name == name
    | v => do
      if !v.isKey then .error (.option .ruleNameKind)
      let name ← onValue (Assignment.written v)
      .error (.model (.unknownRule name))

/-- Lists how strongly the rules fire. -/
def fire (env : Environment) (options : Options) : Except Failure (List String) := do
  let m ← loadModel env options "kv"
  let threshold ←
    if options.isSet "threshold" then onValue (Assignment.toNumber (options.value "threshold"))
    else pure 0.0
  let reports ← onFault (m.explain threshold)
  let reports ← selectRule m (options.value "rule") reports
  if options.isSet "json" then
    return [Data.Json.write .indented (.list (reports.map reportValue))]
  return reports.map reportLine

end FuzzyLogic.CommandLine
