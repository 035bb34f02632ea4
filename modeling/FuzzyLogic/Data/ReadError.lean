set_option autoImplicit false

/-! # Why a data text cannot be read

Most texts that cannot be read are malformed. The other reasons are values that a reader begins to
build and cannot finish. -/

namespace FuzzyLogic.Data

/-- Why a data text spells no value. -/
inductive ReadError where
  /-- The text breaks the rules of its format. -/
  | malformed
  /-- Collections stand inside one another too deeply. -/
  | tooDeep
  /-- The number of a character, or a power of sixty, is beyond the range. -/
  | tooLarge
  /-- A scalar that is said to be a number has no character to be read. -/
  | noDigits
  /-- A scalar that is said to be a truth value is none of the words for it. -/
  | notATruthWord
  /-- A scalar that is said to be a time has another form. -/
  | notATime
  /-- A mapping is said to be a time. -/
  | timeOfMapping
  deriving Repr, DecidableEq

/-- A step of a reader that fails on malformed text only. -/
def orMalformed {β : Type} : Option β → Except ReadError β
  | some b => .ok b
  | none => .error .malformed

end FuzzyLogic.Data
