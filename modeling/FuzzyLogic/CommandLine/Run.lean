import FuzzyLogic.CommandLine.Arguments
import FuzzyLogic.CommandLine.Configuration

set_option autoImplicit false

/-! # The whole program

The program reads its command line, runs the command or the configuration that it asks for, and
ends in one of four ways. All of it is a function of the arguments and the surroundings. -/

namespace FuzzyLogic.CommandLine

/-- How the program ends. -/
inductive Outcome where
  | success
  /-- The arguments do not fit. -/
  | usage
  /-- A failure that is reported to the user. -/
  | reported (message : String)
  /-- A failure without a message. -/
  | aborted (failure : Failure)

/-- What the program prints, and how it ends. -/
structure Result where
  output : String
  outcome : Outcome

/-- The lines of a transcript, and the way it ends. -/
def Transcript.result (t : Transcript) : Result :=
  { output := String.join (t.lines.map (· ++ "\n"))
    outcome :=
      match t.failure with
      | none => .success
      | some e =>
        match e.message? with
        | some message => .reported ("error: " ++ message)
        | none => .aborted e }

/-- Runs what the command line asks for. -/
def Invocation.run (env : Environment) : Invocation → Transcript
  | .command c options => .of [] (c.run env options)
  | .configuration path => runConfiguration env path

/-- Runs the program. -/
def execute (env : Environment) (args : List String) : Result :=
  match Invocation.read? args with
  | none => { output := "", outcome := .usage }
  | some invocation => (invocation.run env).result

/-! ## Files -/

/-- The path that a value spells, if it spells one. -/
def pathOf? : Data.Value → Option String
  | .text path => some path
  | .bytes bs => some (bytesPath bs)
  | _ => none

/-- The paths under the key for a model in a mapping and in the mappings inside of it, down to the
given depth. -/
def modelPaths : Nat → Data.Value → List String
  | depth + 1, .mapping entries =>
    ((Data.Value.field? entries "model").bind pathOf?).toList
      ++ entries.flatMap fun e => modelPaths depth e.2
  | _, _ => []

/-- The paths of all models that a configuration names: for all sections, for one of them, or among
the options of one that are given all at once. -/
def configurationModels (v : Data.Value) : List String :=
  modelPaths 3 v

/-- The file that the arguments name. -/
def Invocation.path? : Invocation → Option String
  | .command _ options => pathOf? (options.value "model")
  | .configuration path => pathOf? path

end FuzzyLogic.CommandLine
