import FuzzyLogic.Data.ReadError

set_option autoImplicit false

/-! # Values that are built in rounds

The values of a document are built level by level: every collection is begun in the round of the
collection around it and filled in the next round. So of two faults the one of the earlier round
counts, and of two in one round the one that comes first in the text. -/

namespace FuzzyLogic.Data.Yaml

/-- A value and the first fault of each round, beginning with the present one. -/
structure Staged (β : Type) where
  value : β
  faults : List (Option ReadError)

namespace Staged

variable {β γ δ : Type}

/-- A value without faults. -/
def pure (b : β) : Staged β :=
  ⟨b, []⟩

/-- A fault of the present round, with a value in place of the one that is not built. -/
def fail (e : ReadError) (b : β) : Staged β :=
  ⟨b, [some e]⟩

/-- The result of a computation in the present round. -/
def ofExcept [Inhabited β] : Except ReadError β → Staged β
  | .ok b => pure b
  | .error e => fail e default

/-- The first faults of each round of two lists, where the faults of the first list come first. -/
def firstFaults : List (Option ReadError) → List (Option ReadError) → List (Option ReadError)
  | [], gs => gs
  | fs, [] => fs
  | f :: fs, g :: gs => f.or g :: firstFaults fs gs

/-- Changes the value. -/
def map (f : β → γ) (s : Staged β) : Staged γ :=
  ⟨f s.value, s.faults⟩

/-- Joins two values of which the first is built first in each round. -/
def both (f : β → γ → δ) (s : Staged β) (t : Staged γ) : Staged δ :=
  ⟨f s.value t.value, firstFaults s.faults t.faults⟩

/-- Builds the value one round later. -/
def later (s : Staged β) : Staged β :=
  ⟨s.value, none :: s.faults⟩

/-- The value, or the first fault of the earliest round that has one. -/
def result (s : Staged β) : Except ReadError β :=
  match s.faults.findSome? id with
  | some e => .error e
  | none => .ok s.value

end Staged

end FuzzyLogic.Data.Yaml
