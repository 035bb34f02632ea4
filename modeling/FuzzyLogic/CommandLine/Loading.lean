import FuzzyLogic.CommandLine.Failure
import FuzzyLogic.Model.Report

set_option autoImplicit false

/-! # Loading a model for a command

A command takes its options as data values under their names, no matter whether they come from the
command line or from a section of a configuration. The options name the model; some commands then
change its operators and set its inputs as the options say. -/

namespace FuzzyLogic.CommandLine

/-- The surroundings of a command: the files it can read, and whether its output goes to a
terminal. -/
structure Environment where
  contents : String → Except FileReason ByteArray
  terminal : Bool

/-- Options under their names. -/
abbrev Options := Registry Data.Value

/-- The option with the given name, which may be absent. -/
def Options.value (options : Options) (name : String) : Data.Value :=
  (options.get? name).getD .null

/-- Whether an option is present and not blank. -/
def Options.isSet (options : Options) (name : String) : Bool :=
  !(options.value name).isBlank

/-! ## Files -/

/-- Whether a path can hold the character. Of the unpaired halves it can hold those that stand for
single bytes. -/
def isPathChar (c : Char) : Bool :=
  match Text.half? c with
  | some n => 0xDC80 ≤ n && n ≤ 0xDCFF
  | none => true

/-- The bytes of the file at a path, which is named in an error as it is shown. -/
def openPath (env : Environment) (path shown : String) : Except Failure ByteArray :=
  if !path.toList.all isPathChar then .error (.option .pathWithHalf)
  else if path.contains '\x00' then .error (.option .pathWithNull)
  else
    match env.contents path with
    | .ok bytes => .ok bytes
    | .error reason => .error (.file (.named reason shown))

/-- The path that bytes spell. Bytes that spell no text are no path of a file. -/
def bytesPath (bs : List UInt8) : String :=
  (String.fromUTF8? ⟨bs.toArray⟩).getD (if bs.contains 0 then "\x00" else "")

/-- The bytes of a file given by its path or by a number. No number stands for an open file, and a
number beyond 32 bits cannot stand for any. -/
def openFile (env : Environment) : Data.Value → Except Failure ByteArray
  | .text path => openPath env path (Text.quoted path)
  | .bytes bs => openPath env (bytesPath bs) (Text.quotedBytes bs)
  | .integer i =>
    .error (
      if i < -0x80000000 ∨ 0x80000000 ≤ i then .option .pathKind
      else if i < 0 then .option .negativeDescriptor
      else .file .badDescriptor)
  | .bool _ => .error (.file .badDescriptor)
  | _ => .error (.option .pathKind)

/-- The text of a file, every line end written as one line feed. -/
def decodeText? (bytes : ByteArray) : Option String :=
  (String.fromUTF8? bytes).map fun s => String.ofList (Text.unifyLineEnds s.toList)

/-! ## Models -/

/-- Loads the model that the options name. -/
def loadFile (env : Environment) (options : Options) : Except Failure (Model Float) := do
  let path ← match options.get? "model" with
    | some v => pure v
    | none => .error (.option .missing)
  let bytes ← openFile env path
  match decodeText? bytes with
  | none => .error .notText
  | some text =>
    match ModelFile.load text with
    | .ok m => .ok m
    | .error e => .error (.load e)

/-- The name of an operator, if one is given. Bytes are a name too, though of no operator. -/
def operatorName : Data.Value → Except Failure (Option String)
  | .null => .ok none
  | .text s => .ok (some s)
  | .bytes bs => .ok (some (Text.quotedBytes bs))
  | _ => .error (.option .operatorKind)

/-- An operation on the model as a step of a command. -/
def onModel {β : Type} : Except (ModelError Float) β → Except Failure β
  | .ok b => .ok b
  | .error e => .error (.model e)

/-- A value read from an option. -/
def onValue {β : Type} : Except Assignment.ValueError β → Except Failure β
  | .ok b => .ok b
  | .error (.assignment e) => .error (.assignment e)
  | .error e => .error (.option (.value e))

/-- A computation on the model as a step of a command. -/
def onFault {β : Type} : Except Fault β → Except Failure β
  | .ok b => .ok b
  | .error f => .error (.model (.fault f))

/-- Changes the operators of the model as the options say. -/
def applyEngine (m : Model Float) (options : Options) : Except Failure (Model Float) := do
  let tnorm ← operatorName (options.value "tnorm")
  let m' ← onModel (m.setEngine tnorm none)
  let snorm ← operatorName (options.value "snorm")
  onModel (m'.setEngine none snorm)

/-- Sets the inputs that the option `key` gives. -/
def applyInputs (m : Model Float) (options : Options) (key : String) :
    Except Failure (Model Float) := do
  let inputs ← onValue (Assignment.ofValue (options.value key))
  match m.setInputs (options.isSet "clamp") inputs.entries with
  | (changed, .ok ()) => .ok changed
  | (_, .error e) => .error (.model e)

/-- The model with the operators and inputs of the options. -/
def loadModel (env : Environment) (options : Options) (inputKey : String) :
    Except Failure (Model Float) := do
  let m ← loadFile env options
  let m ← applyEngine m options
  applyInputs m options inputKey

end FuzzyLogic.CommandLine
