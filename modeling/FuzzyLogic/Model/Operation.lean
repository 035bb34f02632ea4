import FuzzyLogic.Model.Basic

set_option autoImplicit false

/-! # Operations on a model

The operations that change a model, first each as a function, then all together as a type with one
function `perform`. An operation that is refused leaves the model as it was, with one exception:
inputs that are set together are set one after the other up to the first that is refused. -/

namespace FuzzyLogic

namespace Model

variable {α : Type} [Scalar α]

/-! ## Variables -/

/-- Enters a new variable without labels. -/
def addVariable (m : Model α) (name : String) (lower upper : α) :
    Except (ModelError α) (Model α) := do
  let v ← LinguisticVariable.make name lower upper
  if m.database.contains name then .error (.duplicateVariable name)
  else .ok { m with
    pool := m.pool.push v
    database := m.database.insert name ⟨m.pool.size, name⟩ }

/-- Makes a new variable without labels, which is not entered yet. -/
def makeVariable (m : Model α) (name : String) (lower upper : α) :
    Except (ModelError α) (Model α) := do
  let v ← LinguisticVariable.make name lower upper
  return { m with pool := m.pool.push v }

/-- Enters a variable that was made before, under its own name. -/
def enterVariable (m : Model α) (ref : VariableRef) : Except (ModelError α) (Model α) :=
  match m.deref? ref with
  | none => .error (.fault .strayClause)
  | some v =>
    if m.database.contains v.name then .error (.duplicateVariable v.name)
    else .ok { m with database := m.database.insert v.name ⟨ref.id, v.name⟩ }

/-- Takes a variable out of the database. -/
def removeVariable (m : Model α) (name : String) : Except (ModelError α) (Model α) :=
  if m.database.contains name then .ok { m with database := m.database.erase name }
  else .error (.unknownVariable name)

/-- Takes all variables out of the database. -/
def clearVariables (m : Model α) : Model α :=
  { m with database := ∅ }

/-- Puts a changed variable in the place of the old one. -/
def replace (m : Model α) (ref : VariableRef) (v : LinguisticVariable α) : Model α :=
  { m with pool := m.pool.setIfInBounds ref.id v }

/-- Changes the variable that a reference points to. -/
def modify (m : Model α) (ref : VariableRef)
    (f : LinguisticVariable α → Except (ModelError α) (LinguisticVariable α)) :
    Except (ModelError α) (Model α) :=
  match m.deref? ref with
  | none => .error (.fault .strayClause)
  | some v => do
    let changed ← f v
    return m.replace ref changed

/-- Gives a variable a new label. -/
def addLabel (m : Model α) (ref : VariableRef) (label : String) (function : MembershipFunction α) :
    Except (ModelError α) (Model α) := do
  let changed ← m.modify ref (·.withLabel { id := m.labelCount, name := label, function })
  return { changed with labelCount := m.labelCount + 1 }

/-- Gives a variable a new label whose function is built from a shape's name and parameters. -/
def addShapedLabel (m : Model α) (ref : VariableRef) (label shape : String)
    (params : List (Except String α)) : Except (ModelError α) (Model α) :=
  match MembershipFunction.make shape params with
  | .ok function => m.addLabel ref label function
  | .error e => .error (.shape e)

/-- Gives a variable a label that was made before, perhaps for another variable. -/
def enterLabel (m : Model α) (ref : VariableRef) (l : Label α) :
    Except (ModelError α) (Model α) :=
  m.modify ref (·.withLabel l)

/-- Takes all labels off a variable. -/
def clearLabels (m : Model α) (ref : VariableRef) : Except (ModelError α) (Model α) :=
  m.modify ref (.ok ·.withoutLabels)

/-- Sets the input of a variable. -/
def setInput (m : Model α) (ref : VariableRef) (x : α) : Except (ModelError α) (Model α) :=
  m.modify ref (·.withInput x)

/-- Sets the input of the variable with the given name, moved into its range first if `clamp`. -/
def assign (m : Model α) (clamp : Bool) (name : String) (x : α) :
    Except (ModelError α) (Model α) := do
  let (ref, v) ← m.find name
  m.setInput ref (if clamp then v.clamp x else x)

/-- Sets inputs one after the other. At the first one that is refused the model stays as the ones
before have left it. -/
def setInputs (m : Model α) (clamp : Bool) :
    List (String × α) → Model α × Except (ModelError α) Unit
  | [] => (m, .ok ())
  | (name, x) :: rest =>
    match m.assign clamp name x with
    | .ok changed => changed.setInputs clamp rest
    | .error e => (m, .error e)

/-! ## Rules -/

/-- Enters a compiled rule. -/
def addRule (m : Model α) (r : Rule α) : Except (ModelError α) (Model α) :=
  if m.rules.contains r.name then .error (.duplicateRule r.name)
  else .ok { m with rules := m.rules.insert r.name r }

/-- Compiles a rule, bound to the operators of the model, and enters it. -/
def newRule (m : Model α) (name text : String) : Except (ModelError α) (Model α) := do
  let norm ← TNorm.named m.tnorm
  let conorm ← SNorm.named m.snorm
  let r ← m.compile name text (.stock norm) (.stock conorm)
  m.addRule r

/-- Compiles a rule, bound to operators of its own, and enters it. -/
def addBoundRule (m : Model α) (name text : String) (norm : Binding TNorm α)
    (conorm : Binding SNorm α) : Except (ModelError α) (Model α) := do
  let r ← m.compile name text norm conorm
  m.addRule r

/-- Takes a rule out of the rulebase. -/
def removeRule (m : Model α) (name : String) : Except (ModelError α) (Model α) :=
  if m.rules.contains name then .ok { m with rules := m.rules.erase name }
  else .error (.unknownRule name)

/-- Takes all rules out of the rulebase. -/
def clearRules (m : Model α) : Model α :=
  { m with rules := ∅ }

/-- Changes the operators of the model and of all its rules, as far as they are given. -/
def setEngine (m : Model α) (tnorm snorm : Option String) : Except (ModelError α) (Model α) := do
  let norm ← tnorm.mapM TNorm.named
  let conorm ← snorm.mapM SNorm.named
  return { m with
    rules := m.rules.map fun r => { r with
      norm := (norm.map Binding.stock).getD r.norm
      conorm := (conorm.map Binding.stock).getD r.conorm }
    tnorm := (norm.map TNorm.name).getD m.tnorm
    snorm := (conorm.map SNorm.name).getD m.snorm }

/-- Binds a rule to another AND. -/
def rebindNorm (m : Model α) (name : String) (norm : Binding TNorm α) :
    Except (ModelError α) (Model α) := do
  let r ← m.rule name
  return { m with rules := m.rules.insert name { r with norm } }

/-- Binds a rule to another OR. -/
def rebindConorm (m : Model α) (name : String) (conorm : Binding SNorm α) :
    Except (ModelError α) (Model α) := do
  let r ← m.rule name
  return { m with rules := m.rules.insert name { r with conorm } }

end Model

/-! ## All operations -/

/-- An operation that may change a model. -/
inductive Operation (α : Type) where
  | addVariable (name : String) (lower upper : α)
  | makeVariable (name : String) (lower upper : α)
  | enterVariable (ref : VariableRef)
  | removeVariable (name : String)
  | clearVariables
  | addLabel (ref : VariableRef) (label : String) (function : MembershipFunction α)
  | enterLabel (ref : VariableRef) (l : Label α)
  | clearLabels (ref : VariableRef)
  | setInput (ref : VariableRef) (x : α)
  | setInputs (clamp : Bool) (inputs : Registry α)
  | newRule (name text : String)
  | addRule (name text : String) (norm : Binding TNorm α) (conorm : Binding SNorm α)
  | enterRule (r : Rule α)
  | removeRule (name : String)
  | clearRules
  | setEngine (tnorm snorm : Option String)
  | rebindNorm (name : String) (norm : Binding TNorm α)
  | rebindConorm (name : String) (conorm : Binding SNorm α)

namespace Operation

variable {α : Type} [Scalar α]

/-- An operation that is either done or changes nothing. -/
def attempt (m : Model α) (result : Except (ModelError α) (Model α)) :
    Model α × Except (ModelError α) Unit :=
  match result with
  | .ok changed => (changed, .ok ())
  | .error e => (m, .error e)

/-- The model after an operation, and whether the operation was refused. -/
def perform (m : Model α) : Operation α → Model α × Except (ModelError α) Unit
  | addVariable name lower upper => attempt m (m.addVariable name lower upper)
  | makeVariable name lower upper => attempt m (m.makeVariable name lower upper)
  | enterVariable ref => attempt m (m.enterVariable ref)
  | removeVariable name => attempt m (m.removeVariable name)
  | clearVariables => (m.clearVariables, .ok ())
  | addLabel ref label function => attempt m (m.addLabel ref label function)
  | enterLabel ref l => attempt m (m.enterLabel ref l)
  | clearLabels ref => attempt m (m.clearLabels ref)
  | setInput ref x => attempt m (m.setInput ref x)
  | setInputs clamp inputs => m.setInputs clamp inputs.entries
  | newRule name text => attempt m (m.newRule name text)
  | addRule name text norm conorm => attempt m (m.addBoundRule name text norm conorm)
  | enterRule r => attempt m (m.addRule r)
  | removeRule name => attempt m (m.removeRule name)
  | clearRules => (m.clearRules, .ok ())
  | setEngine tnorm snorm => attempt m (m.setEngine tnorm snorm)
  | rebindNorm name norm => attempt m (m.rebindNorm name norm)
  | rebindConorm name conorm => attempt m (m.rebindConorm name conorm)

/-- The model after a sequence of operations, refused ones among them. -/
def performAll (m : Model α) (operations : List (Operation α)) : Model α :=
  operations.foldl (fun m o => (o.perform m).1) m

end Operation

end FuzzyLogic
