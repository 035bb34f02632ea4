import FuzzyLogic.Model.Basic

set_option autoImplicit false

/-! # Reports on the rules of a model

How strongly the rules fire at the current inputs, and which clauses account for it. -/

namespace FuzzyLogic

/-- One clause of an antecedent at the current input. -/
structure ClauseReport (α : Type) where
  subject : String
  label : String
  value : α
  degree : α

/-- One rule at the current inputs. -/
structure RuleReport (α : Type) where
  rule : Rule α
  antecedent : List (ClauseReport α)
  strength : α

namespace Model

variable {α : Type} [Scalar α]

/-- The strengths of the named rules, or of all, under the names of the rules. -/
def firingStrengths (m : Model α) (names : Option (List String)) :
    Except (ModelError α) (Registry α) := do
  let selected ← match names with
    | none => pure m.rules.objects
    | some names => names.mapM m.rule
  let strengths ← selected.mapM fun r => do
    let x ← ModelError.lift (m.strength r)
    return (r.name, x)
  return .ofList strengths

/-- What a clause contributes. -/
def clauseReport (m : Model α) (c : ModelClause α) : Except Fault (ClauseReport α) :=
  match m.deref? c.subject with
  | none => .error .strayClause
  | some v => do
    let degree ← m.degree c
    return { subject := c.subject.name, label := c.label.name, value := v.input, degree }

/-- What a rule does. -/
def ruleReport (m : Model α) (threshold : α) (r : Rule α) :
    Except Fault (Option (RuleReport α)) := do
  let strength ← m.strength r
  if strength < threshold then return none
  let antecedent ← r.program.operands.mapM m.clauseReport
  return some { rule := r, antecedent, strength }

/-- The reports on all rules whose strength is not below the threshold, in order. -/
def explain (m : Model α) (threshold : α) : Except Fault (List (RuleReport α)) := do
  let reports ← m.rules.objects.mapM (m.ruleReport threshold)
  return reports.filterMap id

end Model

end FuzzyLogic
