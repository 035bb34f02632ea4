import FuzzyLogic.Proofs.Model.Update
import FuzzyLogic.Proofs.Registry
import Mathlib.Logic.Relation

set_option autoImplicit false

/-! # What an operation changes

Every operation is made of a few elementary changes: a variable is made or entered, its labels or
its input change, a rule is entered or bound to other operators, a name is taken away. `Change`
lists them with the conditions under which they happen. An operation that is refused changes
nothing, and inputs that are set together are several changes. Whatever is to hold after all
operations is shown for the changes, one by one, and carried over by `changes_perform`. -/

namespace FuzzyLogic

open Relation

variable {α : Type}

/-- The rule is what its text is compiled to in the model. Its name and its operators do not
matter. -/
def Model.Compiles (m : Model α) (r : Rule α) : Prop :=
  Rule.compile m.scope r.text = .ok { program := r.program, consequent := r.output }

theorem Model.compiles_of_compile {m : Model α} {name text : String} {norm : Binding TNorm α}
    {conorm : Binding SNorm α} {r : Rule α} (h : m.compile name text norm conorm = .ok r) :
    m.Compiles r := by
  obtain ⟨c, hc, rfl⟩ := compile_eq_ok_iff.1 h
  exact hc

/-- One elementary change of a model. `removing` says whether variables and labels may lose their
names, `known` which rules there are to be entered. -/
inductive Model.Change [Scalar α] (removing : Prop) (known : Rule α → Prop) (m : Model α) :
    Model α → Prop
  | makeVariable {name : String} {lower upper : α} {v : LinguisticVariable α}
      (hv : LinguisticVariable.make name lower upper = .ok v) :
      Change removing known m { m with pool := m.pool.push v }
  | enterVariable {ref : VariableRef} {v : LinguisticVariable α} (hv : m.deref? ref = some v)
      (hfree : m.database.contains v.name = false) :
      Change removing known m
        { m with database := m.database.insert v.name ⟨ref.id, v.name⟩ }
  | removeVariable (hremoving : removing) (name : String) :
      Change removing known m { m with database := m.database.erase name }
  | clearVariables (hremoving : removing) : Change removing known m { m with database := ∅ }
  | addLabel {ref : VariableRef} {v w : LinguisticVariable α} {l : Label α}
      (hv : m.deref? ref = some v) (hw : v.withLabel l = .ok w) (labelCount : Nat) :
      Change removing known m { m.replace ref w with labelCount }
  | clearLabels (hremoving : removing) {ref : VariableRef} {v : LinguisticVariable α}
      (hv : m.deref? ref = some v) : Change removing known m (m.replace ref v.withoutLabels)
  | setInput {ref : VariableRef} {v : LinguisticVariable α} {x : α} (hv : m.deref? ref = some v)
      (hx : v.admits x = true) : Change removing known m (m.replace ref { v with input := x })
  | enterRule {r : Rule α} (hr : known r) (hfree : m.rules.contains r.name = false) :
      Change removing known m { m with rules := m.rules.insert r.name r }
  | removeRule (name : String) : Change removing known m { m with rules := m.rules.erase name }
  | clearRules : Change removing known m { m with rules := ∅ }
  | bindRule {name : String} {r : Rule α} (hr : m.rules.get? name = some r)
      (norm : Binding TNorm α) (conorm : Binding SNorm α) :
      Change removing known m
        { m with rules := m.rules.insert name { r with norm, conorm } }
  | bindRules (norm : Rule α → Binding TNorm α) (conorm : Rule α → Binding SNorm α)
      (tnorm snorm : String) :
      Change removing known m
        { m with
          rules := m.rules.map fun r => { r with norm := norm r, conorm := conorm r }
          tnorm, snorm }

/-- A sequence of elementary changes. -/
abbrev Model.Changes [Scalar α] (removing : Prop) (known : Rule α → Prop) :
    Model α → Model α → Prop :=
  ReflTransGen (Change removing known)

/-- No change loses a variable, not even one that takes its name out of the database. -/
theorem Model.keeps_of_change [Scalar α] {m m' : Model α} {removing : Prop} {known : Rule α → Prop}
    (h : Change removing known m m') : m.Keeps m' := by
  cases h with
  | @makeVariable name lower upper v hv =>
      intro ref w hw
      rw [deref?_push, if_neg (Nat.ne_of_lt (lt_size_of_deref? hw))]
      exact ⟨w, hw, rfl⟩
  | addLabel hv hw labelCount =>
      obtain ⟨-, rfl⟩ := LinguisticVariable.withLabel_eq_ok_iff.1 hw
      exact keeps_replace hv rfl
  | clearLabels _ hv => exact keeps_replace hv rfl
  | setInput hv hx => exact keeps_replace hv rfl
  | _ => exact .refl m

/-- Every rule stands under its own name, whatever changes. -/
theorem Model.keyed_rules_of_change [Scalar α] {m m' : Model α} {removing : Prop}
    {known : Rule α → Prop} (h : Change removing known m m') (hm : m.rules.Keyed Rule.name) :
    m'.rules.Keyed Rule.name := by
  cases h with
  | enterRule _ _ => exact hm.insert _
  | removeRule name => exact hm.erase name
  | clearRules => exact .empty
  | @bindRule name r hr norm conorm =>
      obtain rfl := hm.key_eq_of_get? hr
      exact hm.insert { r with norm, conorm }
  | bindRules norm conorm _ _ =>
      exact hm.map (f := fun r => { r with norm := norm r, conorm := conorm r }) fun _ => rfl
  | _ => exact hm

/-- The database lists variables that exist, under their own names. -/
def Model.Held (m : Model α) : Prop :=
  ∀ e ∈ m.database.entries, ∃ v, m.deref? e.2 = some v ∧ v.name = e.1

namespace Model.Held

variable {m m' : Model α}

theorem of_keeps (hm : m.Held) (hkeeps : m.Keeps m')
    (hdatabase : ∀ e ∈ m'.database.entries, e ∈ m.database.entries) : m'.Held := by
  intro e he
  obtain ⟨v, hv, hname⟩ := hm e (hdatabase e he)
  obtain ⟨w, hw, hname'⟩ := hkeeps e.2 v hv
  exact ⟨w, hw, hname'.trans hname⟩

theorem change [Scalar α] (hm : m.Held) {removing : Prop} {known : Rule α → Prop}
    (h : Change removing known m m') : m'.Held := by
  have hkeeps := keeps_of_change h
  cases h with
  | @enterVariable ref v hv hfree =>
      intro e he
      obtain rfl | he := Registry.mem_entries_insert he
      · exact ⟨v, hv, rfl⟩
      · exact hm e he
  | removeVariable _ name => exact hm.of_keeps hkeeps fun e he => (List.mem_filter.1 he).1
  | clearVariables _ => exact hm.of_keeps hkeeps fun e he => absurd he List.not_mem_nil
  | _ => exact hm.of_keeps hkeeps fun _ => id

end Model.Held

/-! ## Operations -/

namespace Operation

/-- Whether the operation takes names of variables or labels away. -/
def Removes : Operation α → Prop
  | removeVariable _ => True
  | clearVariables => True
  | clearLabels _ => True
  | _ => False

section

variable [Scalar α] {removing : Prop} {known : Rule α → Prop} {m : Model α}

open Model

theorem changes_attempt {result : Except (ModelError α) (Model α)}
    (h : ∀ m', result = .ok m' → Changes removing known m m') :
    Changes removing known m (attempt m result).1 := by
  unfold attempt
  split
  · next m' => exact h m' rfl
  · exact .refl

theorem changes_addRule {r : Rule α} {m' : Model α} (hr : known r) (h : m.addRule r = .ok m') :
    Changes removing known m m' := by
  obtain ⟨hfree, rfl⟩ := addRule_eq_ok_iff.1 h
  exact .single (.enterRule hr hfree)

theorem changes_setInput {ref : VariableRef} {x : α} {m' : Model α}
    (h : m.setInput ref x = .ok m') : Changes removing known m m' := by
  obtain ⟨v, hv, hx, rfl⟩ := setInput_eq_ok_iff.1 h
  exact .single (.setInput hv hx)

theorem changes_setInputs (clamp : Bool) (inputs : List (String × α)) :
    Changes removing known m (m.setInputs clamp inputs).1 := by
  induction inputs generalizing m with
  | nil => exact .refl
  | cons input rest ih =>
      obtain ⟨name, x⟩ := input
      rw [Model.setInputs]
      split
      · next m' h =>
          obtain ⟨ref, v, -, -, hset⟩ := assign_eq_ok_iff.1 h
          exact (changes_setInput hset).trans ih
      · exact .refl

/-- **An operation is a sequence of elementary changes.** -/
theorem changes_perform (o : Operation α) (hremoves : o.Removes → removing)
    (hcompiled : ∀ r, m.Compiles r → known r) (hentered : ∀ r, o = .enterRule r → known r) :
    Changes removing known m (o.perform m).1 := by
  cases o with
  | addVariable name lower upper =>
      refine changes_attempt fun m' h => ?_
      obtain ⟨v, hv, hfree, rfl⟩ := addVariable_eq_ok_iff.1 h
      obtain rfl : v.name = name := by rw [(LinguisticVariable.make_eq_ok_iff.1 hv).2]
      -- The variable is made and then entered.
      have hmade := deref?_push m v ⟨m.pool.size, v.name⟩
      rw [if_pos rfl] at hmade
      exact .tail (.single (.makeVariable hv)) (.enterVariable hmade hfree)
  | makeVariable name lower upper =>
      refine changes_attempt fun m' h => ?_
      obtain ⟨v, hv, rfl⟩ := makeVariable_eq_ok_iff.1 h
      exact .single (.makeVariable hv)
  | enterVariable ref =>
      refine changes_attempt fun m' h => ?_
      obtain ⟨v, hv, hfree, rfl⟩ := enterVariable_eq_ok_iff.1 h
      exact .single (.enterVariable hv hfree)
  | removeVariable name =>
      refine changes_attempt fun m' h => ?_
      obtain ⟨-, rfl⟩ := removeVariable_eq_ok_iff.1 h
      exact .single (.removeVariable (hremoves trivial) name)
  | clearVariables => exact .single (.clearVariables (hremoves trivial))
  | addLabel ref label function =>
      refine changes_attempt fun m' h => ?_
      obtain ⟨v, w, hv, hw, rfl⟩ := addLabel_eq_ok_iff.1 h
      exact .single (.addLabel hv hw _)
  | enterLabel ref l =>
      refine changes_attempt fun m' h => ?_
      obtain ⟨v, w, hv, hw, rfl⟩ := enterLabel_eq_ok_iff.1 h
      exact .single (.addLabel hv hw m.labelCount)
  | clearLabels ref =>
      refine changes_attempt fun m' h => ?_
      obtain ⟨v, hv, rfl⟩ := clearLabels_eq_ok_iff.1 h
      exact .single (.clearLabels (hremoves trivial) hv)
  | setInput ref x => exact changes_attempt fun m' h => changes_setInput h
  | setInputs clamp inputs => exact changes_setInputs clamp inputs.entries
  | newRule name text =>
      refine changes_attempt fun m' h => ?_
      obtain ⟨norm, conorm, r, -, -, hr, hadd⟩ := newRule_eq_ok_iff.1 h
      exact changes_addRule (hcompiled r (compiles_of_compile hr)) hadd
  | addRule name text norm conorm =>
      refine changes_attempt fun m' h => ?_
      obtain ⟨r, hr, hadd⟩ := addBoundRule_eq_ok_iff.1 h
      exact changes_addRule (hcompiled r (compiles_of_compile hr)) hadd
  | enterRule r => exact changes_attempt fun m' h => changes_addRule (hentered r rfl) h
  | removeRule name =>
      refine changes_attempt fun m' h => ?_
      obtain ⟨-, rfl⟩ := removeRule_eq_ok_iff.1 h
      exact .single (.removeRule name)
  | clearRules => exact .single .clearRules
  | setEngine tnorm snorm =>
      refine changes_attempt fun m' h => ?_
      obtain ⟨norm, conorm, -, -, rfl⟩ := setEngine_eq_ok_iff.1 h
      exact .single (.bindRules _ _ _ _)
  | rebindNorm name norm =>
      refine changes_attempt fun m' h => ?_
      obtain ⟨r, hr, rfl⟩ := rebindNorm_eq_ok_iff.1 h
      exact .single (.bindRule hr norm r.conorm)
  | rebindConorm name conorm =>
      refine changes_attempt fun m' h => ?_
      obtain ⟨r, hr, rfl⟩ := rebindConorm_eq_ok_iff.1 h
      exact .single (.bindRule hr r.norm conorm)

end

end Operation

end FuzzyLogic
