import FuzzyLogic.Proofs.Failure
import FuzzyLogic.Proofs.Model.Update

set_option autoImplicit false

/-! # Why operations are refused

Among the reasons for which an operation on a model is not done, a fault of evaluation stands apart:
it says that something could not be computed. No operation has this reason as long as the variable
that it changes exists. -/

namespace FuzzyLogic

variable {α : Type}

/-- The reason says what is not allowed. -/
def ModelError.IsRefusal : ModelError α → Prop
  | .fault _ => False
  | _ => True

/-! ## Parts of operations -/

theorem TNorm.named_refusal (name : String) :
    FailsOnly ModelError.IsRefusal (TNorm.named name : Except (ModelError α) TNorm) := by
  unfold TNorm.named
  split
  · exact .ok _
  · exact .error trivial

theorem SNorm.named_refusal (name : String) :
    FailsOnly ModelError.IsRefusal (SNorm.named name : Except (ModelError α) SNorm) := by
  unfold SNorm.named
  split
  · exact .ok _
  · exact .error trivial

theorem LinguisticVariable.make_refusal [Scalar α] (name : String) (lower upper : α) :
    FailsOnly ModelError.IsRefusal (make name lower upper) := by
  unfold make
  split
  · exact .ok _
  · exact .error trivial

theorem LinguisticVariable.withLabel_refusal (v : LinguisticVariable α) (l : Label α) :
    FailsOnly ModelError.IsRefusal (v.withLabel l) := by
  unfold withLabel
  split
  · exact .error trivial
  · exact .ok _

theorem LinguisticVariable.withInput_refusal [Scalar α] (v : LinguisticVariable α) (x : α) :
    FailsOnly ModelError.IsRefusal (v.withInput x) := by
  unfold withInput
  split
  · exact .ok _
  · exact .error trivial

/-! ## Operations -/

namespace Model

theorem modify_refusal {m : Model α} {ref : VariableRef} {v : LinguisticVariable α}
    {f : LinguisticVariable α → Except (ModelError α) (LinguisticVariable α)}
    (hv : m.deref? ref = some v) (hf : FailsOnly ModelError.IsRefusal (f v)) :
    FailsOnly ModelError.IsRefusal (m.modify ref f) := by
  unfold modify
  rw [hv]
  exact hf.bind fun w _ => .ok _

theorem addVariable_refusal [Scalar α] (m : Model α) (name : String) (lower upper : α) :
    FailsOnly ModelError.IsRefusal (m.addVariable name lower upper) := by
  refine (LinguisticVariable.make_refusal name lower upper).bind fun v _ => ?_
  split
  · exact .error trivial
  · exact .ok _

theorem addShapedLabel_refusal [Scalar α] {m : Model α} {ref : VariableRef}
    {v : LinguisticVariable α} (hv : m.deref? ref = some v) (label shape : String)
    (params : List (Except String α)) :
    FailsOnly ModelError.IsRefusal (m.addShapedLabel ref label shape params) := by
  unfold addShapedLabel
  split
  · exact (modify_refusal hv (v.withLabel_refusal _)).bind fun _ _ => .ok _
  · exact .error trivial

theorem assign_refusal [Scalar α] (m : Model α) (clamp : Bool) (name : String) (x : α) :
    FailsOnly ModelError.IsRefusal (m.assign clamp name x) := by
  have hfind : FailsOnly ModelError.IsRefusal (m.find name) := by
    unfold find
    split
    · exact .error trivial
    · split
      · exact .error trivial
      · exact .ok _
  refine hfind.bind fun found hfound => ?_
  obtain ⟨ref, v⟩ := found
  exact modify_refusal (find_eq_ok_iff.1 hfound).2 (v.withInput_refusal _)

theorem setEngine_refusal (m : Model α) (tnorm snorm : Option String) :
    FailsOnly ModelError.IsRefusal (m.setEngine tnorm snorm) := by
  have hnorm : FailsOnly ModelError.IsRefusal
      (tnorm.mapM TNorm.named : Except (ModelError α) (Option TNorm)) := by
    cases tnorm with
    | none => exact .ok _
    | some name => exact (TNorm.named_refusal name).map some
  have hconorm : FailsOnly ModelError.IsRefusal
      (snorm.mapM SNorm.named : Except (ModelError α) (Option SNorm)) := by
    cases snorm with
    | none => exact .ok _
    | some name => exact (SNorm.named_refusal name).map some
  exact hnorm.bind fun _ _ => hconorm.bind fun _ _ => .ok _

theorem compile_refusal (m : Model α) (name text : String) (norm : Binding TNorm α)
    (conorm : Binding SNorm α) :
    FailsOnly ModelError.IsRefusal (m.compile name text norm conorm) := by
  unfold compile
  split
  · exact .ok _
  · exact .error trivial

theorem newRule_refusal (m : Model α) (name text : String) :
    FailsOnly ModelError.IsRefusal (m.newRule name text) := by
  refine (TNorm.named_refusal m.tnorm).bind fun norm _ => ?_
  refine (SNorm.named_refusal m.snorm).bind fun conorm _ => ?_
  refine (m.compile_refusal name text _ _).bind fun r _ => ?_
  unfold addRule
  split
  · exact .error trivial
  · exact .ok _

end Model

end FuzzyLogic
