import FuzzyLogic.Proofs.Degree
import FuzzyLogic.Proofs.Model.Run
import FuzzyLogic.Proofs.Rule.Scope
import FuzzyLogic.Proofs.ModelFile.Reachable

set_option autoImplicit false

/-! # Where labels come from

A variable has no labels but those that some operation brought along, and no operation changes a
label. So what holds of all labels that are brought along holds of all labels, and then also of those
that only a rule still refers to. -/

namespace FuzzyLogic

variable {α : Type}

/-- The operation brings the label along, to be given to a variable of the model. -/
def Operation.Brings (m : Model α) (l : Label α) : Operation α → Prop
  | .addLabel _ name function => l = { id := m.labelCount, name, function }
  | .enterLabel _ l' => l = l'
  | _ => False

theorem Operation.Shaped.ordered [Scalar α] {o : Operation α} (h : o.Shaped) {m : Model α}
    {l : Label α} (hl : o.Brings m l) : l.function.Ordered := by
  cases o with
  | addLabel ref name function =>
      subst hl
      exact h
  | enterLabel ref l' =>
      subst hl
      exact h
  | _ => exact hl.elim

namespace Model

/-- Every label of every variable has the property. -/
def AllLabels (p : Label α → Prop) (m : Model α) : Prop :=
  ∀ ref v, m.deref? ref = some v → ∀ l ∈ v.labels.objects, p l

namespace AllLabels

variable {p : Label α → Prop} {m m' : Model α} {ref : VariableRef} {v w : LinguisticVariable α}

theorem empty (tnorm snorm : String) : (Model.empty tnorm snorm : Model α).AllLabels p := by
  intro ref v hv
  exact absurd hv (by simp [Model.empty, deref?])

theorem of_pool_eq (hm : m.AllLabels p) (h : m'.pool = m.pool) : m'.AllLabels p := by
  intro ref v hv
  rw [deref?, h] at hv
  exact hm ref v hv

/-- A new variable has no labels. -/
theorem make [Scalar α] (hm : m.AllLabels p) {name : String} {lower upper : α}
    (hv : LinguisticVariable.make name lower upper = .ok v) (h : m'.pool = m.pool.push v) :
    m'.AllLabels p := by
  intro ref w hw l hl
  rw [deref?, h, Array.getElem?_push] at hw
  split at hw
  · obtain rfl := Option.some.inj hw
    obtain ⟨-, rfl⟩ := LinguisticVariable.make_eq_ok_iff.1 hv
    exact absurd hl List.not_mem_nil
  · exact hm ref w hw l hl

theorem replace (hm : m.AllLabels p) (hv : m.deref? ref = some v)
    (hw : ∀ l ∈ w.labels.objects, p l) : (m.replace ref w).AllLabels p := by
  intro other u hu
  rcases deref?_replace_cases hv w other with ⟨-, hother⟩ | hsame
  · obtain rfl := Option.some.inj (hother.symm.trans hu)
    exact hw
  · exact hm other u (hsame ▸ hu)

theorem withLabel (hm : m.AllLabels p) (hv : m.deref? ref = some v) {l : Label α} (hl : p l)
    (hw : v.withLabel l = .ok w) : (m.replace ref w).AllLabels p := by
  obtain ⟨-, rfl⟩ := LinguisticVariable.withLabel_eq_ok_iff.1 hw
  refine hm.replace hv fun k hk => ?_
  rcases Registry.mem_objects_insert hk with rfl | hold
  · exact hl
  · exact hm ref v hv k hold

variable [Scalar α]

theorem setInput (hm : m.AllLabels p) {x : α} (h : m.setInput ref x = .ok m') :
    m'.AllLabels p := by
  obtain ⟨v, hv, -, rfl⟩ := setInput_eq_ok_iff.1 h
  exact hm.replace hv (hm ref v hv)

/-- **All labels have a property if those that are brought along have it.** -/
theorem perform (hm : m.AllLabels p) {o : Operation α} (ho : ∀ l, o.Brings m l → p l) :
    (o.perform m).1.AllLabels p := by
  by_cases hrules : o.OnRules
  · exact hm.of_pool_eq (Operation.variables_perform hrules m).1
  cases o with
  | addVariable name lower upper =>
      refine Operation.attempt_cases _ hm fun m' h => ?_
      obtain ⟨v, hv, -, rfl⟩ := addVariable_eq_ok_iff.1 h
      exact hm.make hv rfl
  | makeVariable name lower upper =>
      refine Operation.attempt_cases _ hm fun m' h => ?_
      obtain ⟨v, hv, rfl⟩ := makeVariable_eq_ok_iff.1 h
      exact hm.make hv rfl
  | enterVariable ref =>
      refine Operation.attempt_cases _ hm fun m' h => ?_
      obtain ⟨v, -, -, rfl⟩ := enterVariable_eq_ok_iff.1 h
      exact hm.of_pool_eq rfl
  | removeVariable name =>
      refine Operation.attempt_cases _ hm fun m' h => ?_
      obtain ⟨-, rfl⟩ := removeVariable_eq_ok_iff.1 h
      exact hm.of_pool_eq rfl
  | clearVariables => exact hm.of_pool_eq rfl
  | addLabel ref name function =>
      refine Operation.attempt_cases _ hm fun m' h => ?_
      obtain ⟨v, w, hv, hw, rfl⟩ := addLabel_eq_ok_iff.1 h
      exact (hm.withLabel hv (ho _ rfl) hw).of_pool_eq rfl
  | enterLabel ref l =>
      refine Operation.attempt_cases _ hm fun m' h => ?_
      obtain ⟨v, w, hv, hw, rfl⟩ := enterLabel_eq_ok_iff.1 h
      exact hm.withLabel hv (ho l rfl) hw
  | clearLabels ref =>
      refine Operation.attempt_cases _ hm fun m' h => ?_
      obtain ⟨v, hv, rfl⟩ := clearLabels_eq_ok_iff.1 h
      exact hm.replace hv fun l hl => absurd hl List.not_mem_nil
  | setInput ref x => exact Operation.attempt_cases _ hm fun m' h => hm.setInput h
  | setInputs clamp inputs =>
      exact Operation.setInputs_cases _ (fun u name ref x u' _ _ h hu => hu.setInput h) hm
  | _ => exact absurd trivial hrules

end AllLabels

end Model

namespace Session

open Model

variable {m start : Model Float} {past : List (Model Float)}

theorem all_ordered_of_start (hstart : start.AllLabels (·.function.Ordered))
    (h : Session Operation.Shaped start past m) :
    ∀ u ∈ m :: past, u.AllLabels (·.function.Ordered) := by
  induction h with
  | start => exact List.forall_mem_singleton.2 hstart
  | @step past m h o ho hpossible ih =>
      refine List.forall_mem_cons.2 ⟨?_, ih⟩
      exact (ih m List.mem_cons_self).perform fun l hl => ho.ordered hl

/-- **Every label of a session has a function with its parameters in order**, whether the session
starts with an empty model or a loaded one. -/
theorem all_ordered (hstart : start.Fresh) (h : Session Operation.Shaped start past m) :
    ∀ u ∈ m :: past, u.AllLabels (·.function.Ordered) := by
  obtain ⟨tnorm, snorm, past', hfresh⟩ := exists_of_fresh hstart
  refine h.all_ordered_of_start ?_
  exact hfresh.all_ordered_of_start (.empty tnorm snorm) start List.mem_cons_self

end Session

end FuzzyLogic
