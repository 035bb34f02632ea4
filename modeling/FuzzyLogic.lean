import FuzzyLogic.Main
import FuzzyLogic.Proofs.Rule.Completion
import FuzzyLogic.Proofs.Model.Recompilation
import FuzzyLogic.Proofs.Model.Soundness
import FuzzyLogic.Proofs.ModelFile.Order
import FuzzyLogic.Proofs.ModelFile.Failure
import FuzzyLogic.Proofs.Strength
import FuzzyLogic.Proofs.Rule.Grouping
import FuzzyLogic.Proofs.Membership
import FuzzyLogic.Proofs.Model.Dependence
import FuzzyLogic.Proofs.CommandLine.Overrides
import FuzzyLogic.Proofs.CommandLine.Sections
import FuzzyLogic.Proofs.ModelFile.FirstFailure
import FuzzyLogic.Proofs.ModelFile.Remark
import FuzzyLogic.Proofs.ModelFile.RuleLine
import FuzzyLogic.Proofs.Rule.Parentheses
import FuzzyLogic.Proofs.Rule.Resolution
import FuzzyLogic.Proofs.Rule.Registers
import FuzzyLogic.Proofs.ModelFile.Reachable
import FuzzyLogic.Proofs.Model.Naming
import FuzzyLogic.Proofs.Model.ProgramText
import FuzzyLogic.Proofs.Degree
import FuzzyLogic.Proofs.Model.Labels
import FuzzyLogic.Proofs.Model.Reports
import FuzzyLogic.Proofs.Model.Stepwise
import FuzzyLogic.Proofs.Duality
import FuzzyLogic.Proofs.Outline
import FuzzyLogic.Proofs.AssignmentForms
import FuzzyLogic.Proofs.Rule.Piece
import FuzzyLogic.Proofs.Rule.Balance
import FuzzyLogic.Proofs.Rule.Excess
import FuzzyLogic.Proofs.Rule.Reserved
import FuzzyLogic.Proofs.CommandLine.Selection
