import FuzzyLogic.CommandLine.Command
import FuzzyLogic.Data.Json.Reader
import FuzzyLogic.Data.Yaml.Resolve

set_option autoImplicit false

/-! # Configurations

A configuration runs several commands, each described by a section under the command's name. The
sections run in a fixed order. A section gives the options of its command; the model and the
operators of the whole configuration stand in for those that it does not give. The first section
that fails ends the run. -/

namespace FuzzyLogic.CommandLine

/-! ## Output -/

/-- What a run has printed, line by line, and how it failed if it did. -/
structure Transcript where
  lines : List String
  failure : Option Failure

/-- A run that has printed these lines and then ended as the result says. -/
def Transcript.of (printed : List String) : Except Failure (List String) → Transcript
  | .ok lines => { lines := printed ++ lines, failure := none }
  | .error e => { lines := printed, failure := some e }

/-- The second run behind the first, unless the first has failed. -/
def Transcript.andThen (first : Transcript) (second : Unit → Transcript) : Transcript :=
  match first.failure with
  | some _ => first
  | none =>
    let next := second ()
    { lines := first.lines ++ next.lines, failure := next.failure }

/-! ## Reading -/

/-- Whether the name of a file says that it holds YAML. -/
def isYamlPath (path : String) : Bool :=
  let path := Text.lower path
  path.endsWith ".yml" || path.endsWith ".yaml"

/-- The value that a configuration file holds. -/
def readValue (path : String) (bytes : ByteArray) : Except Data.ReadError Data.Value := do
  let text ← Data.orMalformed (decodeText? bytes)
  if isYamlPath path then Data.Yaml.read text else Data.Json.read text

/-- The entries of the configuration in a file with this name. -/
def configurationEntries (path : String) (bytes : ByteArray) :
    Except Failure (List (Data.Value × Data.Value)) :=
  match readValue path bytes with
  | .ok (.mapping entries) => .ok entries
  | .ok _ => .error (.configuration path .notAMapping)
  | .error .malformed => .error (.configuration path .unreadable)
  | .error e => .error (.unbuildable e)

/-! ## Sections -/

/-- The commands in the order in which their sections run. -/
def sectionOrder : List Command :=
  [.validate, .show, .fire, .program]

/-- The keys of a configuration. -/
def knownKeys : List String :=
  ["model", "engine"] ++ sectionOrder.map Command.name

/-- The texts of values that are all texts. -/
def texts? (values : List Data.Value) : Option (List String) :=
  values.mapM fun
    | .text s => some s
    | _ => none

/-- Refuses a configuration with other keys than the known ones. -/
def checkKeys (path : String) (entries : List (Data.Value × Data.Value)) :
    Except Failure Unit :=
  let unknown := (entries.map Prod.fst).filter fun
    | .text s => !knownKeys.contains s
    | _ => true
  match texts? unknown with
  | none => .error (.option .keyKind)
  | some [] => .ok ()
  | some names =>
    .error (.configuration path (.unknownSections (names.mergeSort fun a b => decide (a ≤ b))))

/-- The entries of a section; a blank section has none. -/
def sectionEntries (path : String) (c : Command) (v : Data.Value) :
    Except Failure (List (Data.Value × Data.Value)) :=
  match v with
  | .mapping entries => .ok entries
  | v => if v.isBlank then .ok [] else .error (.configuration path (.sectionNotAMapping c.name))

/-- The name of an option. The text `self` names none. -/
def optionName : Data.Value → Except Failure String
  | .text name => if name == "self" then .error (.option .keyKind) else .ok name
  | _ => .error (.option .keyKind)

/-- The entries under text keys. -/
def textEntries (entries : List (Data.Value × Data.Value)) : List (String × Data.Value) :=
  entries.filterMap fun
    | (.text name, v) => some (name, v.takenOut)
    | _ => none

/-- Gives an option. Three names are reserved: two of them cannot be given, and under the third one
stands a mapping that replaces all options given before. -/
def setOption (options : Options) (name : String) (v : Data.Value) : Except Failure Options :=
  if name == "__class__" then .error (.option .keyKind)
  else if name == "__weakref__" then .error (.option .lockedName)
  else if name == "__dict__" then
    match v with
    | .mapping entries => .ok (.ofList (textEntries entries))
    | _ => .error (.option .keyKind)
  else .ok (options.insert name v)

/-- The options that the entries of a section give, after all their names are checked. -/
def optionsOf (entries : List (Data.Value × Data.Value)) : Except Failure Options := do
  let named ← entries.mapM fun (k, v) => do return (← optionName k, v)
  named.foldlM (fun options e => setOption options e.1 e.2.takenOut) ∅

/-- Enters a value under a key that is not in use. -/
def orElse (entries : List (Data.Value × Data.Value)) (key : String) (v : Data.Value) :
    List (Data.Value × Data.Value) :=
  match Data.Value.field? entries key with
  | some _ => entries
  | none => entries ++ [(.text key, v)]

/-- The operators of the whole configuration. -/
def engineEntries (entries : List (Data.Value × Data.Value)) :
    Except Failure (List (Data.Value × Data.Value)) :=
  match Data.Value.field? entries "engine" with
  | none => .ok []
  | some (.mapping engine) => .ok engine
  | some v => if v.isBlank then .ok [] else .error (.option .engineKind)

/-- The keys that a section cannot do without, besides the model. -/
def requiredKeys : Command → List String
  | .program => ["rule"]
  | _ => []

/-- Whether a section has a value under the key that is not blank. -/
def hasField (entries : List (Data.Value × Data.Value)) (key : String) : Bool :=
  match Data.Value.field? entries key with
  | some v => !v.isBlank
  | none => false

/-- The entries of a section together with those of the configuration that stand in. -/
def completeSection (path : String) (configuration : List (Data.Value × Data.Value)) (c : Command)
    (v : Data.Value) : Except Failure (List (Data.Value × Data.Value)) := do
  let entries ← sectionEntries path c v
  let model := (Data.Value.field? configuration "model").getD .null
  let entries := orElse entries "model" model
  if !hasField entries "model" then .error (.configuration path (.sectionNeedsModel c.name))
  let missing := (requiredKeys c).filter fun key => !hasField entries key
  if !missing.isEmpty then .error (.configuration path (.sectionNeeds c.name missing))
  let engine ← engineEntries configuration
  let operator := fun key => (Data.Value.field? engine key).getD .null
  return orElse (orElse entries "tnorm" (operator "tnorm")) "snorm" (operator "snorm")

/-- Runs a section behind a line with its name. -/
def runSection (env : Environment) (path : String)
    (configuration : List (Data.Value × Data.Value)) (c : Command) : Transcript :=
  match Data.Value.field? configuration c.name with
  | none => .of [] (.ok [])
  | some v =>
    match completeSection path configuration c v with
    | .error e => .of [] (.error e)
    | .ok entries =>
      .of ["[run] " ++ c.name] do
        let options ← optionsOf entries
        c.run env options

/-! ## The whole run -/

/-- Runs the sections of a configuration in order. -/
def runSections (env : Environment) (path : String)
    (configuration : List (Data.Value × Data.Value)) : Transcript :=
  sectionOrder.foldl
    (fun t c => t.andThen fun _ => runSection env path configuration c) (.of [] (.ok []))

/-- The entries of the configuration at a path, all keys of which are known ones. -/
def loadConfiguration (env : Environment) (path : Data.Value) :
    Except Failure (List (Data.Value × Data.Value)) := do
  let bytes ← openFile env path
  let entries ← configurationEntries path.plainForm bytes
  checkKeys path.plainForm entries
  return entries

/-- Runs the configuration in a file. -/
def runConfiguration (env : Environment) (path : Data.Value) : Transcript :=
  match loadConfiguration env path with
  | .ok entries => runSections env path.plainForm entries
  | .error e => .of [] (.error e)

end FuzzyLogic.CommandLine
