import FuzzyLogic.CommandLine.Run

set_option autoImplicit false

/-! # The executable

Reads the files that the arguments ask for, runs the program on them, and passes on what it prints
and how it ends. -/

namespace FuzzyLogic.CommandLine

/-- Why the system could not read a file. -/
def fileReason : IO.Error → FileReason
  | .noFileOrDirectory .. => .notFound
  | .permissionDenied .. => .accessDenied
  | .inappropriateType .. => .isADirectory
  | .invalidArgument .. => .nameTooLong
  | _ => .notFound

/-- The bytes of a file. -/
def loadBytes (path : String) : IO (Except FileReason ByteArray) := do
  try
    return .ok (← IO.FS.readBinFile path)
  catch e => return .error (fileReason e)

/-- The files that the program may read. -/
def loadFiles (args : List String) : IO (List (String × Except FileReason ByteArray)) := do
  match Invocation.read? args with
  | none => return []
  | some invocation =>
    match invocation.path? with
    | none => return []
    | some path =>
      let first ← loadBytes path
      match invocation, first with
      | .configuration _, .ok bytes =>
        let models := match readValue path bytes with
          | .ok v => configurationModels v
          | .error _ => []
        let others ← models.mapM fun model => do return (model, ← loadBytes model)
        return (path, first) :: others
      | _, _ => return [(path, first)]

/-- Runs the program on the files of the system, and returns its exit code. -/
def executeOnSystem (args : List String) : IO UInt32 := do
  let files ← loadFiles args
  let stdout ← IO.getStdout
  let env : Environment :=
    { contents := fun path => (files.lookup path).getD (.error .notFound)
      terminal := ← stdout.isTty }
  let result := execute env args
  IO.print result.output
  match result.outcome with
  | .success => return 0
  | .usage =>
    IO.eprintln "usage: validate | show | fire | postfix | run, each with its options"
    return 2
  | .reported message =>
    IO.eprintln message
    return 1
  | .aborted _ =>
    IO.eprintln "error: a value of the wrong kind"
    return 1

end FuzzyLogic.CommandLine

def main (args : List String) : IO UInt32 :=
  FuzzyLogic.CommandLine.executeOnSystem args
