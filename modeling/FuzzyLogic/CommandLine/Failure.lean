import FuzzyLogic.Assignment
import FuzzyLogic.Data.ReadError
import FuzzyLogic.ModelFile.Load

set_option autoImplicit false

/-! # How a command fails

Some failures are reported to the user as one message: a model that cannot be loaded, an input that
is refused, a file that cannot be read, a configuration with the wrong sections. The others are
values of a kind that an option cannot have; they end the program without a message of its own. -/

namespace FuzzyLogic.CommandLine

/-! ## Files -/

/-- Why a file cannot be read. -/
inductive FileReason where
  | notFound
  | accessDenied
  | notADirectory
  | isADirectory
  | nameTooLong
  deriving Repr, DecidableEq

/-- The number and the wording of the system for the reason. -/
def FileReason.describe : FileReason → Nat × String
  | notFound => (2, "No such file or directory")
  | accessDenied => (13, "Permission denied")
  | notADirectory => (20, "Not a directory")
  | isADirectory => (21, "Is a directory")
  | nameTooLong => (36, "File name too long")

/-- A file that cannot be read, with its path as it is shown. A file given by a number has no
path. -/
inductive FileError where
  | named (reason : FileReason) (shown : String)
  | badDescriptor
  deriving Repr, DecidableEq

/-- The wording of the system. -/
def FileError.message : FileError → String
  | named reason shown =>
    let (number, text) := reason.describe
    "[Errno " ++ toString number ++ "] " ++ text ++ ": " ++ shown
  | badDescriptor => "[Errno 9] Bad file descriptor"

/-! ## Configurations -/

/-- What is wrong with a configuration as a whole. -/
inductive ConfigurationError where
  | unreadable
  | notAMapping
  | unknownSections (names : List String)
  | sectionNotAMapping (name : String)
  | sectionNeedsModel (name : String)
  | sectionNeeds (name : String) (keys : List String)
  deriving Repr, DecidableEq

/-- The wording of the error behind the name of the file. -/
def ConfigurationError.summary : ConfigurationError → String
  | unreadable => "cannot parse config"
  | notAMapping => "config must be a mapping of sections"
  | unknownSections names => "unknown sections: " ++ ", ".intercalate names
  | sectionNotAMapping name => "section '" ++ name ++ "' must be a mapping"
  | sectionNeedsModel name => "section '" ++ name ++ "' needs a model"
  | sectionNeeds name keys => "section '" ++ name ++ "' needs: " ++ ", ".intercalate keys

/-! ## Options of the wrong kind -/

/-- A value that an option cannot have. -/
inductive OptionError where
  /-- A value that gives no inputs, or no number. -/
  | value (error : Assignment.ValueError)
  /-- A path that is neither a text nor a number. -/
  | pathKind
  /-- A path with an unpaired half, which no bytes can spell. -/
  | pathWithHalf
  | pathWithNull
  | negativeDescriptor
  /-- An operator's name that is no text. -/
  | operatorKind
  /-- A rule's text that is no text. -/
  | ruleTextKind
  /-- Bytes or a time in the place of a rule's text. -/
  | ruleTextBytesOrTime
  /-- A collection in the place of a rule's name. -/
  | ruleNameKind
  /-- Operators for all sections that are not given as a mapping. -/
  | engineKind
  /-- The key of a section or an option that is no text, or a text that no option can have. -/
  | keyKind
  /-- A name whose option cannot be given. -/
  | lockedName
  /-- An option that a command cannot do without. -/
  | missing
  deriving Repr, DecidableEq

/-! ## All failures -/

/-- Why a command fails. -/
inductive Failure where
  | load (error : ModelFile.LoadError)
  | model (error : ModelError Float)
  | assignment (error : AssignmentError)
  | file (error : FileError)
  | configuration (path : String) (error : ConfigurationError)
  | option (error : OptionError)
  /-- A model whose bytes are no text. -/
  | notText
  /-- A configuration with a value that cannot be built. -/
  | unbuildable (error : Data.ReadError)

/-- The message to the user, for the failures that have one. A rule without words and a fault of
evaluation have none. -/
def Failure.message? : Failure → Option String
  | load error =>
    match error.reason with
    | .blankRule => none
    | _ => some error.message
  | model (.fault _) => none
  | model (.shape (.notANumber _)) => none
  | model error => some error.message
  | assignment error => some error.message
  | file error => some error.message
  | configuration path error => some (path ++ ": " ++ error.summary)
  | option _ => none
  | notText => none
  | unbuildable _ => none

end FuzzyLogic.CommandLine
