import FuzzyLogic.Model.Variable
import FuzzyLogic.Rule.Compile

set_option autoImplicit false

/-! # Models

A model is a database of linguistic variables and a rulebase over it. A rule is compiled once and
refers to the variables and labels themselves, not to their names: a variable that is taken out of
the database lives on in the rules compiled with it. For this the model numbers its variables and
keeps each under its number for good, and the database maps names to numbers. -/

namespace FuzzyLogic

/-! ## References -/

/-- A variable of a model, by its number and its name, which never changes. -/
structure VariableRef where
  id : Nat
  name : String
  deriving Repr, DecidableEq

/-- A clause about a variable and a label of a model. -/
abbrev ModelClause (α : Type) := Rule.Clause VariableRef (Label α)

namespace ModelClause

variable {α : Type}

/-- Whether two clauses are about the same variable and the same label. -/
def same (a b : ModelClause α) : Bool :=
  a.subject == b.subject && a.label.id == b.label.id

/-- The clause as it is written. -/
def text (c : ModelClause α) : String :=
  c.subject.name ++ " is " ++ c.label.name

end ModelClause

/-- A compiled rule with the operators it is bound to. -/
structure Rule (α : Type) where
  name : String
  text : String
  program : Program (ModelClause α)
  output : ModelClause α
  norm : Binding TNorm α
  conorm : Binding SNorm α

/-- The program of a rule as it is shown. -/
def Rule.programText {α : Type} (r : Rule α) : String :=
  Program.text ModelClause.text r.program

/-- The truth functions of a rule. -/
def Rule.connectives {α : Type} [Scalar α] (r : Rule α) : Connectives α :=
  { norm := r.norm.applyNorm, conorm := r.conorm.applyConorm }

/-! ## Models -/

/-- A database of variables and a rulebase. The names of the operators are the ones that new rules
are bound to. -/
structure Model (α : Type) where
  /-- Every variable ever made, under its number. -/
  pool : Array (LinguisticVariable α)
  /-- The number of the next label. -/
  labelCount : Nat
  database : Registry VariableRef
  rules : Registry (Rule α)
  tnorm : String
  snorm : String

namespace Model

variable {α : Type} [Scalar α]

/-- The model without variables and rules. -/
def empty (tnorm snorm : String) : Model α :=
  { pool := #[], labelCount := 0, database := ∅, rules := ∅, tnorm, snorm }

/-- The model that every description starts from. -/
def initial : Model α :=
  empty TNorm.minimum.name SNorm.maximum.name

/-- The variable that a reference points to. -/
def deref? (m : Model α) (v : VariableRef) : Option (LinguisticVariable α) :=
  m.pool[v.id]?

/-- The variable of the database with the given name. -/
def find (m : Model α) (name : String) :
    Except (ModelError α) (VariableRef × LinguisticVariable α) :=
  match m.database.get? name with
  | none => .error (.unknownVariable name)
  | some ref =>
    match m.deref? ref with
    | none => .error (.unknownVariable name)
    | some v => .ok (ref, v)

/-- The label of a variable with the given name. -/
def labelOf? (m : Model α) (v : VariableRef) (label : String) : Option (Label α) :=
  (m.deref? v).bind (·.labels.get? label)

/-- The names that a rule of the model may use. -/
def scope (m : Model α) : Rule.Scope VariableRef (Label α) :=
  { lookup := m.database.get?, labelOf := m.labelOf?, nameOf := VariableRef.name }

/-- The variables of the database with their names, in order. -/
def databaseEntries (m : Model α) : List (String × LinguisticVariable α) :=
  m.database.entries.filterMap fun (name, ref) => (m.deref? ref).map (name, ·)

/-! ## Evaluation -/

/-- The degree of truth of a clause at the current input of its variable. -/
def degree (m : Model α) (c : ModelClause α) : Except Fault α :=
  match m.deref? c.subject with
  | some v => c.label.membership v.input
  | none => .error .strayClause

/-- The degree to which the antecedent of a rule holds. -/
def strength (m : Model α) (r : Rule α) : Except Fault α :=
  r.program.evaluate r.connectives m.degree

/-- The rule with the given name. -/
def rule (m : Model α) (name : String) : Except (ModelError α) (Rule α) :=
  match m.rules.get? name with
  | some r => .ok r
  | none => .error (.unknownRule name)

/-- Compiles a rule without entering it. -/
def compile (m : Model α) (name text : String) (norm : Binding TNorm α)
    (conorm : Binding SNorm α) : Except (ModelError α) (Rule α) :=
  match Rule.compile m.scope text with
  | .ok c => .ok { name, text, program := c.program, output := c.consequent, norm, conorm }
  | .error e => .error (.rule e text)

/-- A rule bound to minimum and maximum, as one is made outside a rulebase. -/
def compileDefault (m : Model α) (name text : String) : Except (ModelError α) (Rule α) :=
  m.compile name text (.stock .minimum) (.stock .maximum)

end Model

end FuzzyLogic
