import FuzzyLogic.Model.Operation
import FuzzyLogic.ModelFile.Directive
import FuzzyLogic.Text.Lines

set_option autoImplicit false

/-! # Loading a model

A model is loaded in three passes. The first goes through all lines; it makes the variables and
labels and chooses the operators, and puts inputs and rules aside. The second sets the inputs and
the third compiles the rules, each in the order of the lines. So a rule may stand before the
variables that it uses, and every rule gets the operators that were chosen last. -/

namespace FuzzyLogic.ModelFile

/-- A line of a model with its number, counted from one. -/
structure Line where
  number : Nat
  content : String
  deriving Repr, DecidableEq

/-- The first failure, with the line it comes from. -/
structure LoadError where
  line : Line
  reason : LineError

/-- The wording of the failure. -/
def LoadError.message (e : LoadError) : String :=
  "[.fz:" ++ toString e.line.number ++ "] " ++ e.reason.summary ++ "\n  >> " ++ e.line.content

/-- The failure of the operation that a line asked for. -/
def atLine {β : Type} (line : Line) : Except LineError β → Except LoadError β
  | .ok b => .ok b
  | .error reason => .error { line, reason }

/-- An operation on the model as a step of loading. -/
def onModel {β : Type} : Except (ModelError Float) β → Except LineError β
  | .ok b => .ok b
  | .error e => .error (.model e)

/-! ## The first pass -/

/-- An input that is set in the second pass. -/
structure PendingInput where
  line : Line
  name : String
  value : Float

/-- A rule that is compiled in the third pass. -/
structure PendingRule where
  line : Line
  name : String
  text : String

/-- What the first pass has gathered. -/
structure Draft where
  model : Model Float
  inputs : List PendingInput
  rules : List PendingRule
  /-- The number of rules without a name so far. -/
  unnamed : Nat

/-- The draft before the first line. -/
def Draft.start : Draft :=
  { model := .initial, inputs := [], rules := [], unnamed := 0 }

/-- The parameters of a membership function, each a number or a word that spells none. -/
def readParams (params : List String) : List (Except String Float) :=
  params.map fun word =>
    match Decimal.read? word with
    | some x => .ok x
    | none => .error word

/-- Gives a label to a variable of the database. -/
def makeLabel (m : Model Float) (owner label shape : String) (params : List String) :
    Except LineError (Model Float) :=
  match m.database.get? owner with
  | none => .error (.labelOfUnknownVariable owner)
  | some ref => onModel (m.addShapedLabel ref label shape (readParams params))

/-- The name of the `n`-th rule without a name. -/
def automaticName (n : Nat) : String :=
  "R" ++ toString n

/-- Takes in the directive of a line. -/
def Draft.add (d : Draft) (line : Line) : Directive → Except LineError Draft
  | .makeVariable name lower upper => do
    let model ← onModel (d.model.addVariable name lower upper)
    return { d with model }
  | .makeLabel owner label shape params => do
    let model ← makeLabel d.model owner label shape params
    return { d with model }
  | .chooseNorm name => do
    let model ← onModel (d.model.setEngine (some name) none)
    return { d with model }
  | .chooseConorm name => do
    let model ← onModel (d.model.setEngine none (some name))
    return { d with model }
  | .setInput name value => .ok { d with inputs := d.inputs ++ [{ line, name, value }] }
  | .addRule (some name) text => .ok { d with rules := d.rules ++ [{ line, name, text }] }
  | .addRule none text =>
    .ok { d with
      rules := d.rules ++ [{ line, name := automaticName (d.unnamed + 1), text }]
      unnamed := d.unnamed + 1 }

/-- Takes in a line. -/
def Draft.addLine (d : Draft) (line : Line) : Except LoadError Draft :=
  atLine line do
    match ← Directive.ofLine line.content with
    | none => return d
    | some directive => d.add line directive

/-- The lines of a text, numbered from one. -/
def numberLines (lines : List String) : List Line :=
  lines.mapIdx fun i content => { number := i + 1, content }

/-! ## The other passes -/

/-- Sets an input that was put aside. -/
def applyInput (m : Model Float) (input : PendingInput) : Except LoadError (Model Float) :=
  atLine input.line (onModel (m.assign false input.name input.value))

/-- Compiles a rule that was put aside. -/
def applyRule (m : Model Float) (rule : PendingRule) : Except LoadError (Model Float) :=
  atLine rule.line (onModel (m.newRule rule.name rule.text))

/-- Loads a model from its lines. -/
def loadLines (lines : List Line) : Except LoadError (Model Float) := do
  let draft ← lines.foldlM Draft.addLine .start
  let model ← draft.inputs.foldlM applyInput draft.model
  draft.rules.foldlM applyRule model

/-- Loads a model from its text. -/
def load (text : String) : Except LoadError (Model Float) :=
  loadLines (numberLines (Text.splitLines text))

end FuzzyLogic.ModelFile
