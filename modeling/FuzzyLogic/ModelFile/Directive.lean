import FuzzyLogic.Decimal.Reader
import FuzzyLogic.Model.Error
import FuzzyLogic.ModelFile.Words
import FuzzyLogic.Rule.Token

set_option autoImplicit false

/-! # Directives

Every line of a model that has words is a directive. Its first word says in any letter case what it
does: `var` makes a variable, `mf` gives it a label, `tnorm` and `snorm` choose the operators,
`input` sets an input, and `rule` adds a rule. -/

namespace FuzzyLogic.ModelFile

/-- What a line of a model says. -/
inductive Directive where
  | makeVariable (name : String) (lower upper : Float)
  | makeLabel (owner label shape : String) (params : List String)
  | chooseNorm (name : String)
  | chooseConorm (name : String)
  | setInput (name : String) (x : Float)
  /-- A rule without a name is numbered. -/
  | addRule (name : Option String) (text : String)
  deriving Repr

/-- Why a line is refused. -/
inductive LineError where
  | words (error : WordError)
  | variableForm
  | labelForm
  | normForm
  | conormForm
  | inputForm
  | labelOfUnknownVariable (name : String)
  | unknownDirective (word : String)
  | notANumber (text : String)
  | model (error : ModelError Float)
  /-- A rule all of whose words are blank, so that none tells its name from its text. -/
  | blankRule

/-- The wording of the error without the line. -/
def LineError.summary : LineError → String
  | words error => error.message
  | variableForm => "var: expected 'var <name> <vmin> <vmax>'"
  | labelForm => "mf: expected 'mf <var> <label> <shape> [params...]'"
  | normForm => "tnorm: expected a name (e.g. min|prod)"
  | conormForm => "snorm: expected a name (e.g. max|prob)"
  | inputForm => "input: expected 'input <var> <value>'"
  | labelOfUnknownVariable name => "MF for unknown variable: " ++ name
  | unknownDirective word => "Unknown directive: " ++ word
  | notANumber text => notANumberMessage text
  | model error => error.message
  | blankRule => "a rule without words"

/-- The number that a word spells. -/
def number (word : String) : Except LineError Float :=
  match Decimal.read? word with
  | some x => .ok x
  | none => .error (.notANumber word)

namespace Directive

/-- A variable takes a name and the two ends of its range. -/
def ofVariable : List String → Except LineError Directive
  | [name, lower, upper] => do
    let lower ← number lower
    let upper ← number upper
    return makeVariable name lower upper
  | _ => .error .variableForm

/-- A label takes its variable, its name, its shape and at least one parameter. -/
def ofLabel : List String → Except LineError Directive
  | owner :: label :: shape :: param :: params => .ok (makeLabel owner label shape (param :: params))
  | _ => .error .labelForm

/-- A t-norm takes its name. -/
def ofNorm : List String → Except LineError Directive
  | [name] => .ok (chooseNorm name)
  | _ => .error .normForm

/-- An s-norm takes its name. -/
def ofConorm : List String → Except LineError Directive
  | [name] => .ok (chooseConorm name)
  | _ => .error .conormForm

/-- An input takes its variable and a number. -/
def ofInput : List String → Except LineError Directive
  | [name, x] => do
    let x ← number x
    return setInput name x
  | _ => .error .inputForm

/-- A rule is named by its first word, without the colons at its end, unless the rule's text starts
there. -/
def ofRule : List String → Except LineError Directive
  | [] => .ok (addRule none "")
  | word :: rest =>
    let text := " ".intercalate (word :: rest)
    let tokens := Rule.tokenize text
    if tokens.isEmpty then .error .blankRule
    else if Rule.startsWithIf tokens then .ok (addRule none text)
    else .ok (addRule (some (Text.trimRightOf ':' word)) (" ".intercalate rest))

/-- The directive that the words of a line spell; a line without words is none. -/
def ofWords : List String → Except LineError (Option Directive)
  | [] => .ok none
  | head :: rest =>
    let directive := match Text.lower head with
      | "var" => ofVariable rest
      | "mf" => ofLabel rest
      | "tnorm" => ofNorm rest
      | "snorm" => ofConorm rest
      | "input" => ofInput rest
      | "rule" => ofRule rest
      | _ => .error (.unknownDirective head)
    directive.map some

/-- The directive that a line spells. -/
def ofLine (line : String) : Except LineError (Option Directive) :=
  match lineWords line with
  | .ok words => ofWords words
  | .error e => .error (.words e)

end Directive

end FuzzyLogic.ModelFile
