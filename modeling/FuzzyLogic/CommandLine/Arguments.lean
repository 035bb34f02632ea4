import FuzzyLogic.CommandLine.Command
import FuzzyLogic.Decimal.Reader

set_option autoImplicit false

/-! # Arguments

The command line names a command and gives its options. An option is written `--name value` or
`--name=value`, and its name may be cut short as long as it stays unique. Behind two dashes every
argument is a value. A negative number is a value too, and so is everything with a blank in it that
is not an option. Values that no option takes are the positional ones of the command; they have to
stand together. Whatever does not fit is a usage error. -/

namespace FuzzyLogic.CommandLine

/-! ## Option tables -/

/-- How many values an option takes, and of which kind. -/
inductive OptionKind where
  | flag
  | text
  | number
  | choice (names : List String)
  /-- All values up to the next option. -/
  | many
  deriving Repr, DecidableEq

/-- An option as it is written, and the name of its value for the command. -/
structure OptionForm where
  written : String
  name : String
  kind : OptionKind
  required : Bool
  deriving Repr

/-- The positional values of a command. -/
inductive Positional where
  | none
  | one (name : String)
  | some (name : String)
  deriving Repr, DecidableEq

/-- What a command takes. -/
structure CommandForm where
  options : List OptionForm
  positional : Positional
  deriving Repr

/-- The options that ask for help, which every command has. -/
def helpForms : List OptionForm := [
  { written := "-h", name := "help", kind := .flag, required := false },
  { written := "--help", name := "help", kind := .flag, required := false }]

/-- The option that names the model. -/
def modelForm : OptionForm :=
  { written := "--model", name := "model", kind := .text, required := true }

/-- The option that moves inputs into their ranges. -/
def clampForm : OptionForm :=
  { written := "--clamp", name := "clamp", kind := .flag, required := false }

/-- The options that choose the operators. -/
def engineForms : List OptionForm := [
  { written := "--tnorm", name := "tnorm", kind := .choice (TNorm.all.map TNorm.name),
    required := false },
  { written := "--snorm", name := "snorm", kind := .choice (SNorm.all.map SNorm.name),
    required := false }]

/-- Counting the parts of a model takes the model only. -/
def validateForm : CommandForm :=
  { options := helpForms ++ [modelForm], positional := .none }

/-- Listing a model takes inputs, a filter on the rules and the operators. -/
def showForm : CommandForm :=
  { options := helpForms ++ [modelForm,
      { written := "--at", name := "at", kind := .many, required := false },
      clampForm,
      { written := "--fired-only", name := "fired_only", kind := .flag, required := false },
      { written := "--min-alpha", name := "min_alpha", kind := .number, required := false }]
      ++ engineForms
    positional := .none }

/-- Listing the rules that fire takes the inputs as its positional values. -/
def fireForm : CommandForm :=
  { options := helpForms ++ [modelForm,
      { written := "--rule", name := "rule", kind := .text, required := false },
      { written := "--json", name := "json", kind := .flag, required := false },
      { written := "--threshold", name := "threshold", kind := .number, required := false },
      clampForm] ++ engineForms
    positional := .some "kv" }

/-- Showing a program takes the rule as its only positional value. -/
def programForm : CommandForm :=
  { options := helpForms ++ [modelForm], positional := .one "rule" }

/-- Running a configuration takes its path. -/
def runForm : CommandForm :=
  { options := helpForms ++ [
      { written := "--config", name := "config", kind := .text, required := true }]
    positional := .none }

/-! ## Telling options from values -/

/-- An argument as the command sees it. -/
inductive Argument where
  | option (form : OptionForm) (value : Option String)
  | value (text : String)
  /-- The first pair of dashes. -/
  | dashes

/-- Whether the text is a minus sign with digits and at most one point. A line feed at the end
does not count. -/
def isNegativeNumber (arg : String) : Bool :=
  match arg.toList with
  | '-' :: cs =>
    let cs := if cs.getLast? == some '\n' then cs.dropLast else cs
    let isDigit := fun c => (Text.digitValue? c).isSome
    match cs.span isDigit with
    | (digits, []) => !digits.isEmpty
    | (_, '.' :: fraction) => !fraction.isEmpty && fraction.all isDigit
    | _ => false
  | _ => false

/-- The part before the first equals sign and the part behind it. -/
def splitOption (arg : String) : String × Option String :=
  match Assignment.splitAtEquals arg.toList with
  | some (name, value) => (String.ofList name, some (String.ofList value))
  | none => (arg, none)

/-- The kind of an argument before any pair of dashes, or nothing if it is a usage error. No option
of one letter takes a value, so nothing may be joined to its letter. -/
def Argument.classify? (forms : List OptionForm) (arg : String) : Option Argument :=
  if !arg.startsWith "-" || arg == "-" then some (.value arg)
  else
    match forms.find? (·.written == arg) with
    | some form => some (.option form none)
    | none =>
      let (name, given) := splitOption arg
      match forms.find? (·.written == name) with
      | some form => some (.option form given)
      | none =>
        let long := arg.startsWith "--"
        let candidates := if long then forms.filter (·.written.startsWith name) else []
        match candidates with
        | [form] => some (.option form given)
        | _ :: _ :: _ => none
        | [] =>
          if forms.any fun form => !long && form.written == String.ofList (arg.toList.take 2) then none
          else if isNegativeNumber arg || arg.contains ' ' then some (.value arg)
          else none

/-- The kinds of all arguments. -/
def Argument.classifyAll? (forms : List OptionForm) : List String → Option (List Argument)
  | [] => some []
  | arg :: rest =>
    if arg == "--" then some (.dashes :: rest.map .value)
    else do
      let first ← classify? forms arg
      let others ← classifyAll? forms rest
      return first :: others

/-! ## Collecting -/

/-- The options and positional values collected so far. -/
structure Collected where
  options : Options
  /-- The positional values, once they were given. -/
  positional : Option (List String)

/-- The value of an option that takes one. -/
def optionValue? (kind : OptionKind) (text : String) : Option Data.Value :=
  match kind with
  | .number => (Decimal.read? text).map .number
  | .choice names => if names.contains text then some (.text text) else none
  | _ => some (.text text)

/-- The values at the front, and the rest. -/
def takeValues : List Argument → List String × List Argument
  | .value text :: rest =>
    let (texts, tail) := takeValues rest
    (text :: texts, tail)
  | args => ([], args)

/-- An option with its value, if it has one, and the rest of the arguments. Two dashes behind an
equals sign are left out, and no value remains. -/
def takeOption? (form : OptionForm) (value : Option String) (rest : List Argument) :
    Option (Data.Value × List Argument) :=
  match form.kind, value with
  | .flag, none => some (.bool true, rest)
  | .flag, some _ => none
  | _, some "--" => some (.list [], rest)
  | .many, some text => some (.list [.text text], rest)
  | .many, none =>
    let (texts, tail) := takeValues rest
    some (.list (texts.map .text), tail)
  | kind, some text => (optionValue? kind text).map fun v => (v, rest)
  | kind, none =>
    match rest with
    | .value text :: tail => (optionValue? kind text).map fun v => (v, tail)
    | _ => none

/-- The arguments up to the next option, and the rest. -/
def takeRun : List Argument → List Argument × List Argument
  | .option form value :: rest => ([], .option form value :: rest)
  | a :: rest =>
    let (run, tail) := takeRun rest
    (a :: run, tail)
  | [] => ([], [])

/-- The positional values in a run of arguments without options. Pairs of dashes hold no value. -/
def positionalValues? (positional : Positional) (run : List Argument) : Option (List String) :=
  let texts := run.filterMap fun
    | .value text => some text
    | _ => none
  match positional, texts with
  | .none, _ => none
  | .one _, [text] => some [text]
  | .one _, _ => none
  | .some _, [] => none
  | .some _, texts => some texts

/-- Goes through the arguments. The fuel bounds the number of steps. -/
def collect? (form : CommandForm) (c : Collected) (fuel : Nat) (args : List Argument) :
    Option Collected :=
  match fuel, args with
  | _, [] => some c
  | 0, _ => none
  | fuel + 1, .option o value :: rest =>
    match takeOption? o value rest with
    | none => none
    | some (v, tail) => collect? form { c with options := c.options.insert o.name v } fuel tail
  | fuel + 1, args =>
    let (run, tail) := takeRun args
    if c.positional.isSome then none
    else
      match positionalValues? form.positional run with
      | none => none
      | some texts => collect? form { c with positional := some texts } fuel tail

/-- The collected options together with the positional values, if nothing required is missing. A
call for help is answered with the usage. -/
def Collected.finish? (form : CommandForm) (c : Collected) : Option Options :=
  if c.options.contains "help" then none
  else if form.options.any fun o => o.required && !c.options.contains o.name then none
  else
    match form.positional, c.positional with
    | .none, none => some c.options
    | .one name, some [text] => some (c.options.insert name (.text text))
    | .some name, some texts => some (c.options.insert name (.list (texts.map .text)))
    | _, _ => none

/-- The options that the arguments of a command give. -/
def CommandForm.read? (form : CommandForm) (args : List String) : Option Options := do
  let arguments ← Argument.classifyAll? form.options args
  let collected ← collect? form ⟨∅, none⟩ (arguments.length + 1) arguments
  collected.finish? form

/-! ## The whole command line -/

/-- What the command line asks for. -/
inductive Invocation where
  | command (c : Command) (options : Options)
  | configuration (path : Data.Value)

/-- The options for help and for more diagnostics, before the command. -/
def leadingForms : List OptionForm :=
  helpForms ++ [
    { written := "-v", name := "verbose", kind := .flag, required := false },
    { written := "--verbose", name := "verbose", kind := .flag, required := false }]

/-- Whether the argument asks for more diagnostics, perhaps several times in one. An equals sign may
stand behind the first letter if others follow it. -/
def isVerboseMark (arg : String) : Bool :=
  match arg.toList with
  | '-' :: 'v' :: '=' :: vs => !vs.isEmpty && vs.all (· == 'v')
  | '-' :: 'v' :: vs => vs.all (· == 'v')
  | _ => false

/-- The arguments from the command on. -/
def dropLeading? : List String → Option (List String)
  | [] => none
  | arg :: rest =>
    if isVerboseMark arg then dropLeading? rest
    else
      match Argument.classify? leadingForms arg with
      | some (.option form none) => if form.name == "verbose" then dropLeading? rest else none
      | some (.value _) => some (arg :: rest)
      | _ => none

/-- Reads the command line. -/
def Invocation.read? (args : List String) : Option Invocation := do
  match ← dropLeading? args with
  | "validate" :: rest => (validateForm.read? rest).map (command .validate)
  | "show" :: rest => (showForm.read? rest).map (command .show)
  | "fire" :: rest => (fireForm.read? rest).map (command .fire)
  | "postfix" :: rest => (programForm.read? rest).map (command .program)
  | "run" :: rest => do
    let options ← runForm.read? rest
    (options.get? "config").map configuration
  | _ => none

end FuzzyLogic.CommandLine
