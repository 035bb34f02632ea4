import FuzzyLogic.CommandLine.Firing
import FuzzyLogic.CommandLine.Listing

set_option autoImplicit false

/-! # The commands

All commands that work on one model, as a type. A command either fails or yields the lines of its
output. -/

namespace FuzzyLogic.CommandLine

/-! ## The model as a whole -/

/-- Counts the parts of the model. -/
def validate (env : Environment) (options : Options) : Except Failure (List String) := do
  let m ← loadFile env options
  let entries := m.databaseEntries
  let labels := entries.foldl (fun n e => n + e.2.labels.size) 0
  return [
    "OK: variables=" ++ toString entries.length ++ ", labels=" ++ toString labels
      ++ ", rules=" ++ toString m.rules.size,
    "tnorm=" ++ m.tnorm ++ ", snorm=" ++ m.snorm]

/-! ## One rule -/

/-- Compiles a rule over the variables of the model and shows its program. -/
def showProgram (env : Environment) (options : Options) : Except Failure (List String) := do
  let m ← loadFile env options
  match options.get? "rule" with
  | some (.text text) =>
    let r ← onModel (m.compileDefault "<cli>" text)
    return [r.programText, "=> " ++ r.output.text]
  | some (.bytes _) | some (.date _) | some (.moment _) => .error (.option .ruleTextBytesOrTime)
  | some _ => .error (.option .ruleTextKind)
  | none => .error (.option .missing)

/-! ## All commands on a model -/

/-- The commands that work on one model. -/
inductive Command where
  | validate
  | show
  | fire
  | program
  deriving Repr, DecidableEq

/-- The name of a command. -/
def Command.name : Command → String
  | .validate => "validate"
  | .show => "show"
  | .fire => "fire"
  | .program => "postfix"

/-- Runs a command. -/
def Command.run (c : Command) (env : Environment) (options : Options) :
    Except Failure (List String) :=
  match c with
  | .validate => CommandLine.validate env options
  | .show => showModel env options
  | .fire => CommandLine.fire env options
  | .program => showProgram env options

end FuzzyLogic.CommandLine
