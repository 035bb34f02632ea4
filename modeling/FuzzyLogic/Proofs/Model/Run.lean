import FuzzyLogic.Proofs.Model.Update
import FuzzyLogic.Proofs.Registry

set_option autoImplicit false

/-! # Runs of operations

A run is a list of operations, performed one after the other whether they are refused or not. What
is to hold at its end is carried along from operation to operation. `VariableEffect` lists what one
operation can do to the variables. Of the rules of the rulebase a run is followed name by name:
`RuleEffect` lists what one operation can do to the rule under a name and to the names of the
operators. Both say under which conditions it does, and nothing else is used of the operations
below. -/

namespace FuzzyLogic.Operation

open Model

variable {α : Type}

/-! ## Kinds of operations -/

/-- The operation is about the rulebase and not about variables. -/
def OnRules : Operation α → Prop
  | newRule _ _ => True
  | addRule _ _ _ _ => True
  | enterRule _ => True
  | removeRule _ => True
  | clearRules => True
  | setEngine _ _ => True
  | rebindNorm _ _ => True
  | rebindConorm _ _ => True
  | _ => False

/-- The operation takes the rule with the name out of the rulebase. -/
def Drops (name : String) : Operation α → Prop
  | removeRule n => n = name
  | clearRules => True
  | _ => False

/-- The operation enters a rule under the name that brings its own operators. -/
def EntersBound (name : String) : Operation α → Prop
  | addRule n _ _ _ => n = name
  | enterRule r => r.name = name
  | _ => False

/-- The operation binds the rule with the name, and no other, to an AND. -/
def RebindsNorm (name : String) : Operation α → Prop
  | rebindNorm n _ => n = name
  | _ => False

/-- The operation binds the rule with the name, and no other, to an OR. -/
def RebindsConorm (name : String) : Operation α → Prop
  | rebindConorm n _ => n = name
  | _ => False

/-- The operation chooses the AND of the whole model. -/
def ChoosesNorm : Operation α → Prop
  | setEngine tnorm _ => tnorm.isSome
  | _ => False

/-- The operation chooses the OR of the whole model. -/
def ChoosesConorm : Operation α → Prop
  | setEngine _ snorm => snorm.isSome
  | _ => False

/-- The operation binds the rule with the name to another operator, perhaps together with others. -/
def Rebinds (name : String) (o : Operation α) : Prop :=
  o.RebindsNorm name ∨ o.RebindsConorm name ∨ o.ChoosesNorm ∨ o.ChoosesConorm

/-- The operation is about neither the rule with the name nor all rules. -/
def Spares (name : String) : Operation α → Prop
  | newRule n _ => n ≠ name
  | addRule n _ _ _ => n ≠ name
  | enterRule r => r.name ≠ name
  | removeRule n => n ≠ name
  | clearRules => False
  | setEngine _ _ => False
  | rebindNorm n _ => n ≠ name
  | rebindConorm n _ => n ≠ name
  | _ => True

/-- The operation is about the variable that the reference points to, directly or by a name. -/
def Targets (m : Model α) (ref : VariableRef) : Operation α → Prop
  | addLabel other _ _ => other.id = ref.id
  | enterLabel other _ => other.id = ref.id
  | clearLabels other => other.id = ref.id
  | setInput other _ => other.id = ref.id
  | setInputs _ inputs =>
    ∃ name ∈ inputs.names, ∃ other, m.database.get? name = some other ∧ other.id = ref.id
  | _ => False

/-- The operation sets the input of the variable that the reference points to. -/
def SetsInput (m : Model α) (ref : VariableRef) : Operation α → Prop
  | setInput other x => (setInput other x).Targets m ref
  | setInputs clamp inputs => (setInputs clamp inputs).Targets m ref
  | _ => False

/-- The operation is not refused. -/
def Succeeds [Scalar α] (m : Model α) (o : Operation α) : Prop :=
  (o.perform m).2 = .ok ()

/-- The condition holds of every operation of the run and of the model on which it is performed. -/
def Along [Scalar α] (p : Model α → Operation α → Prop) (m : Model α) : List (Operation α) → Prop
  | [] => True
  | o :: rest => p m o ∧ Along p (o.perform m).1 rest

/-! ## Runs -/

section

variable [Scalar α] {p q : Model α → Operation α → Prop} {m : Model α} {o : Operation α}
  {run run' : List (Operation α)}

theorem performAll_append : performAll m (run ++ run') = performAll (performAll m run) run' :=
  List.foldl_append

theorem performAll_concat : performAll m (run ++ [o]) = (o.perform (performAll m run)).1 :=
  performAll_append

theorem along_concat : Along p m (run ++ [o]) ↔ Along p m run ∧ p (performAll m run) o := by
  induction run generalizing m with
  | nil => exact ⟨fun h => ⟨trivial, h.1⟩, fun h => ⟨h.2, trivial⟩⟩
  | cons first rest ih => exact (and_congr_right fun _ => ih).trans and_assoc.symm

theorem Along.and (h : Along p m run) (h' : Along q m run) :
    Along (fun u o => p u o ∧ q u o) m run := by
  induction run generalizing m with
  | nil => trivial
  | cons o rest ih => exact ⟨⟨h.1, h'.1⟩, ih h.2 h'.2⟩

/-- What every operation of the run keeps holds at its end. -/
theorem Along.invariant (inv : Model α → Prop)
    (hstep : ∀ u o, p u o → inv u → inv (o.perform u).1) (hm : inv m) (h : Along p m run) :
    inv (performAll m run) := by
  induction run generalizing m with
  | nil => exact hm
  | cons o rest ih => exact ih (hstep m o h.1 hm) h.2

end

theorem spares_of_not_onRules {name : String} {o : Operation α} (h : ¬ o.OnRules) :
    o.Spares name := by
  cases o with
  | newRule _ _ | addRule _ _ _ _ | enterRule _ | removeRule _ | clearRules | setEngine _ _
  | rebindNorm _ _ | rebindConorm _ _ => exact absurd trivial h
  | _ => trivial

theorem Spares.not_drops {name : String} {o : Operation α} (h : o.Spares name) :
    ¬ o.Drops name := by
  cases o with
  | removeRule n => exact h
  | clearRules => exact h.elim
  | _ => exact id

theorem Spares.not_chooses {name : String} {o : Operation α} (h : o.Spares name) :
    ¬ o.ChoosesNorm ∧ ¬ o.ChoosesConorm := by
  cases o with
  | setEngine tnorm snorm => exact h.elim
  | _ => exact ⟨id, id⟩

/-! ## The effect of one operation -/

/-- What holds of the model and of what the operation makes of it holds afterwards. -/
theorem attempt_cases (p : Model α → Prop) {m : Model α} {result : Except (ModelError α) (Model α)}
    (hm : p m) (h : ∀ m', result = .ok m' → p m') : p (attempt m result).1 := by
  cases result with
  | error e => exact hm
  | ok m' => exact h m' rfl

/-- Inputs that are set together are set one by one. -/
theorem setInputs_cases [Scalar α] (p : Model α → Prop) {clamp : Bool} {inputs : List (String × α)}
    (hset : ∀ u name ref x u', (∃ y, (name, y) ∈ inputs) → u.database.get? name = some ref →
      u.setInput ref x = .ok u' → p u → p u')
    {m : Model α} (hm : p m) : p (m.setInputs clamp inputs).1 := by
  induction inputs generalizing m with
  | nil => exact hm
  | cons input rest ih =>
      obtain ⟨name, x⟩ := input
      rw [Model.setInputs]
      split
      · next m' h =>
          obtain ⟨ref, v, href, -, hinput⟩ := assign_eq_ok_iff.1 h
          refine ih (fun u n r y u' hn => ?_)
            (hset m name ref _ m' ⟨x, List.mem_cons_self⟩ href hinput hm)
          exact hset u n r y u' (hn.imp fun _ => List.mem_cons_of_mem _)
      · exact hm

/-- What an operation can do to the variables, with the conditions under which it does. -/
inductive VariableEffect (o : Operation α) (m : Model α) : Model α → Prop
  | made (v : LinguisticVariable α) : VariableEffect o m { m with pool := m.pool.push v }
  | added (name : String) (v : LinguisticVariable α) :
      VariableEffect o m
        { m with
          pool := m.pool.push v
          database := m.database.insert name ⟨m.pool.size, name⟩ }
  | entered {ref : VariableRef} (henters : o = enterVariable ref) (name : String) :
      VariableEffect o m { m with database := m.database.insert name ⟨ref.id, name⟩ }
  | erased (name : String) : VariableEffect o m { m with database := m.database.erase name }
  | cleared : VariableEffect o m { m with database := ∅ }
  | labelled {ref : VariableRef} {v w : LinguisticVariable α} (htargets : o.Targets m ref)
      (hv : m.deref? ref = some v) (hinput : w.input = v.input) (labelCount : Nat) :
      VariableEffect o m { m.replace ref w with labelCount }
  | set {ref : VariableRef} {v : LinguisticVariable α} (hsets : o.SetsInput m ref)
      (hv : m.deref? ref = some v) (x : α) :
      VariableEffect o m (m.replace ref { v with input := x })

/-- **What all effects on the variables keep is kept by an operation on variables.** Inputs that are
set together are several effects; the names mean the same all along. -/
theorem variables_induction [Scalar α] {o : Operation α} (h : ¬ o.OnRules) {m : Model α}
    (p : Model α → Prop)
    (hstep : ∀ u u', u.database = m.database → p u → VariableEffect o u u' → p u') (hm : p m) :
    p (o.perform m).1 := by
  have hdone {m' : Model α} (heffect : VariableEffect o m m') : p m' := hstep m m' rfl hm heffect
  cases o with
  | addVariable name lower upper =>
      refine attempt_cases p hm fun m' hdo => ?_
      obtain ⟨v, -, -, rfl⟩ := addVariable_eq_ok_iff.1 hdo
      exact hdone (.added name v)
  | makeVariable name lower upper =>
      refine attempt_cases p hm fun m' hdo => ?_
      obtain ⟨v, -, rfl⟩ := makeVariable_eq_ok_iff.1 hdo
      exact hdone (.made v)
  | enterVariable ref =>
      refine attempt_cases p hm fun m' hdo => ?_
      obtain ⟨v, -, -, rfl⟩ := enterVariable_eq_ok_iff.1 hdo
      exact hdone (.entered rfl v.name)
  | removeVariable name =>
      refine attempt_cases p hm fun m' hdo => ?_
      obtain ⟨-, rfl⟩ := removeVariable_eq_ok_iff.1 hdo
      exact hdone (.erased name)
  | clearVariables => exact hdone .cleared
  | addLabel ref label function =>
      refine attempt_cases p hm fun m' hdo => ?_
      obtain ⟨v, w, hv, hw, rfl⟩ := addLabel_eq_ok_iff.1 hdo
      have htargets : (addLabel ref label function).Targets m ref := rfl
      exact hdone (.labelled htargets hv (LinguisticVariable.input_withLabel hw) (m.labelCount + 1))
  | enterLabel ref l =>
      refine attempt_cases p hm fun m' hdo => ?_
      obtain ⟨v, w, hv, hw, rfl⟩ := enterLabel_eq_ok_iff.1 hdo
      have htargets : (enterLabel ref l).Targets m ref := rfl
      exact hdone (.labelled htargets hv (LinguisticVariable.input_withLabel hw) m.labelCount)
  | clearLabels ref =>
      refine attempt_cases p hm fun m' hdo => ?_
      obtain ⟨v, hv, rfl⟩ := clearLabels_eq_ok_iff.1 hdo
      have htargets : (clearLabels ref : Operation α).Targets m ref := rfl
      have hinput : v.withoutLabels.input = v.input := rfl
      exact hdone (.labelled htargets hv hinput m.labelCount)
  | setInput ref x =>
      refine attempt_cases p hm fun m' hdo => ?_
      obtain ⟨v, hv, -, rfl⟩ := setInput_eq_ok_iff.1 hdo
      have hsets : (setInput ref x).SetsInput m ref := rfl
      exact hdone (.set hsets hv x)
  | setInputs clamp inputs =>
      refine (setInputs_cases (fun u => u.database = m.database ∧ p u)
        (fun u name ref x u' hname href hset hu => ?_) ⟨rfl, hm⟩).2
      obtain ⟨v, hv, -, rfl⟩ := setInput_eq_ok_iff.1 hset
      have hmem : name ∈ inputs.names := List.mem_map.2 ⟨_, hname.choose_spec, rfl⟩
      have hsets : (setInputs clamp inputs).SetsInput u ref := ⟨name, hmem, ref, href, rfl⟩
      exact ⟨hu.1, hstep u _ hu.1 hu.2 (.set hsets hv x)⟩
  | _ => exact absurd trivial h

/-- An operation on variables leaves the rulebase as it was. -/
theorem rulebase_perform [Scalar α] {o : Operation α} (h : ¬ o.OnRules) (m : Model α) :
    (o.perform m).1.rules = m.rules ∧ (o.perform m).1.tnorm = m.tnorm ∧
      (o.perform m).1.snorm = m.snorm := by
  refine variables_induction h
    (fun u => u.rules = m.rules ∧ u.tnorm = m.tnorm ∧ u.snorm = m.snorm)
    (fun u u' _ hu heffect => ?_) ⟨rfl, rfl, rfl⟩
  cases heffect <;> exact hu

/-- An operation on the rulebase leaves the variables as they were. -/
theorem variables_perform [Scalar α] {o : Operation α} (h : o.OnRules) (m : Model α) :
    (o.perform m).1.pool = m.pool ∧ (o.perform m).1.database = m.database := by
  let same (u : Model α) : Prop := u.pool = m.pool ∧ u.database = m.database
  have hsame : same m := ⟨rfl, rfl⟩
  have hadd {r : Rule α} {m' : Model α} (h : m.addRule r = .ok m') : same m' := by
    obtain ⟨-, rfl⟩ := addRule_eq_ok_iff.1 h
    exact hsame
  cases o with
  | newRule name text =>
      refine attempt_cases same hsame fun m' h => ?_
      obtain ⟨norm, conorm, r, -, -, -, h⟩ := newRule_eq_ok_iff.1 h
      exact hadd h
  | addRule name text norm conorm =>
      refine attempt_cases same hsame fun m' h => ?_
      obtain ⟨r, -, h⟩ := addBoundRule_eq_ok_iff.1 h
      exact hadd h
  | enterRule r => exact attempt_cases same hsame fun m' h => hadd h
  | removeRule name =>
      refine attempt_cases same hsame fun m' h => ?_
      obtain ⟨-, rfl⟩ := removeRule_eq_ok_iff.1 h
      exact hsame
  | clearRules => exact hsame
  | setEngine tnorm snorm =>
      refine attempt_cases same hsame fun m' h => ?_
      obtain ⟨norm, conorm, -, -, rfl⟩ := setEngine_eq_ok_iff.1 h
      exact hsame
  | rebindNorm name norm =>
      refine attempt_cases same hsame fun m' h => ?_
      obtain ⟨r, -, rfl⟩ := rebindNorm_eq_ok_iff.1 h
      exact hsame
  | rebindConorm name conorm =>
      refine attempt_cases same hsame fun m' h => ?_
      obtain ⟨r, -, rfl⟩ := rebindConorm_eq_ok_iff.1 h
      exact hsame
  | _ => exact absurd h id

/-! ## The rule under a name -/

/-- What an operation can do to the rule under the name and to the names of the operators. -/
inductive RuleEffect [Scalar α] (name : String) (m : Model α) : Operation α → Model α → Prop
  | spared {o : Operation α} {m' : Model α} (hspares : o.Spares name)
      (hrule : m'.rules.get? name = m.rules.get? name) (htnorm : m'.tnorm = m.tnorm)
      (hsnorm : m'.snorm = m.snorm) : RuleEffect name m o m'
  | refused {o : Operation α} (hkeeps : ¬ o.Drops name) (hrefused : ¬ o.Succeeds m) :
      RuleEffect name m o m
  | dropped {o : Operation α} {m' : Model α} (hdrops : o.Drops name)
      (hrule : m'.rules.get? name = none) : RuleEffect name m o m'
  | made {text : String} {norm : TNorm} {conorm : SNorm} {r : Rule α}
      (hfree : m.rules.get? name = none) (hnorm : TNorm.ofName? m.tnorm = some norm)
      (hconorm : SNorm.ofName? m.snorm = some conorm) (hrnorm : r.norm = .stock norm)
      (hrconorm : r.conorm = .stock conorm) :
      RuleEffect name m (newRule name text) { m with rules := m.rules.insert name r }
  | entered {o : Operation α} {r : Rule α} (hfree : m.rules.get? name = none)
      (henters : o.EntersBound name) (hsucceeds : o.Succeeds m) :
      RuleEffect name m o { m with rules := m.rules.insert name r }
  | boundNorm {r : Rule α} {norm : Binding TNorm α} (hr : m.rules.get? name = some r)
      (hsucceeds : (rebindNorm name norm).Succeeds m) :
      RuleEffect name m (rebindNorm name norm)
        { m with rules := m.rules.insert name { r with norm } }
  | boundConorm {r : Rule α} {conorm : Binding SNorm α} (hr : m.rules.get? name = some r)
      (hsucceeds : (rebindConorm name conorm).Succeeds m) :
      RuleEffect name m (rebindConorm name conorm)
        { m with rules := m.rules.insert name { r with conorm } }
  | chosen {tnorm snorm : Option String} {norm : Option TNorm} {conorm : Option SNorm}
      (hnorm : tnorm.mapM TNorm.named = (.ok norm : Except (ModelError α) _))
      (hconorm : snorm.mapM SNorm.named = (.ok conorm : Except (ModelError α) _)) :
      RuleEffect name m (setEngine tnorm snorm) (m.withOperators norm conorm)

section

variable [Scalar α] {name : String} {m : Model α} {o : Operation α}

theorem succeeds_of_attempt {result : Except (ModelError α) (Model α)} {m' : Model α}
    (hperform : o.perform m = attempt m result) (h : result = .ok m') : o.Succeeds m := by
  rw [Succeeds, hperform, h, attempt]

theorem ruleEffect_attempt {result : Except (ModelError α) (Model α)}
    (hperform : o.perform m = attempt m result) (hkeeps : ¬ o.Drops name)
    (h : ∀ m', result = .ok m' → RuleEffect name m o m') :
    RuleEffect name m o (o.perform m).1 := by
  rw [hperform]
  cases result with
  | error e =>
      refine .refused hkeeps fun hsucceeds => ?_
      rw [Succeeds, hperform] at hsucceeds
      cases hsucceeds
  | ok m' => exact h m' rfl

/-- An operation that enters a rule is about the name of this rule only. -/
theorem ruleEffect_addRule {r : Rule α} {m' : Model α} (hadd : m.addRule r = .ok m')
    (hspares : r.name ≠ name → o.Spares name)
    (h : r.name = name → m.rules.get? name = none →
      RuleEffect name m o { m with rules := m.rules.insert name r }) :
    RuleEffect name m o m' := by
  obtain ⟨hfree, rfl⟩ := addRule_eq_ok_iff.1 hadd
  by_cases hname : r.name = name
  · subst hname
    refine h rfl ?_
    simpa [Registry.contains] using hfree
  · exact .spared (hspares hname) (by rw [Registry.get?_insert, if_neg (Ne.symm hname)]) rfl rfl

/-- An operation that changes one rule in its place is about the name of this rule only. -/
theorem ruleEffect_insert {n : String} {r : Rule α} (hspares : n ≠ name → o.Spares name)
    (h : n = name → RuleEffect name m o { m with rules := m.rules.insert name r }) :
    RuleEffect name m o { m with rules := m.rules.insert n r } := by
  by_cases hname : n = name
  · subst hname
    exact h rfl
  · exact .spared (hspares hname) (by rw [Registry.get?_insert, if_neg (Ne.symm hname)]) rfl rfl

/-- A rule that is taken away is not there, even if the operation is refused. -/
theorem ruleEffect_removeRule (n : String) :
    RuleEffect name m (removeRule n) ((removeRule n).perform m).1 := by
  by_cases hname : n = name
  · subst hname
    refine .dropped rfl ?_
    change (attempt m (m.removeRule n)).1.rules.get? n = none
    unfold Model.removeRule
    split
    · exact (Registry.get?_erase m.rules n n).trans (if_pos rfl)
    · next hfree => simpa [attempt, Registry.contains] using hfree
  · refine ruleEffect_attempt rfl hname fun m' h => ?_
    obtain ⟨-, rfl⟩ := removeRule_eq_ok_iff.1 h
    exact .spared hname (by rw [Registry.get?_erase, if_neg (Ne.symm hname)]) rfl rfl

/-- **What an operation does to the rule under a name is one of the listed effects.** -/
theorem ruleEffect_perform (o : Operation α) (m : Model α) (name : String) :
    RuleEffect name m o (o.perform m).1 := by
  by_cases hrules : o.OnRules
  · cases o with
    | newRule n text =>
        refine ruleEffect_attempt rfl id fun m' h => ?_
        obtain ⟨norm, conorm, r, hnorm, hconorm, hr, hadd⟩ := newRule_eq_ok_iff.1 h
        obtain ⟨c, -, rfl⟩ := compile_eq_ok_iff.1 hr
        refine ruleEffect_addRule hadd id ?_
        rintro rfl hfree
        exact .made hfree hnorm hconorm rfl rfl
    | addRule n text norm conorm =>
        refine ruleEffect_attempt rfl id fun m' h => ?_
        obtain ⟨r, hr, hadd⟩ := addBoundRule_eq_ok_iff.1 h
        obtain ⟨c, -, rfl⟩ := compile_eq_ok_iff.1 hr
        exact ruleEffect_addRule hadd id fun hname hfree =>
          .entered hfree hname (succeeds_of_attempt rfl h)
    | enterRule r =>
        refine ruleEffect_attempt rfl id fun m' h => ?_
        exact ruleEffect_addRule h id fun hname hfree =>
          .entered hfree hname (succeeds_of_attempt rfl h)
    | removeRule n => exact ruleEffect_removeRule n
    | clearRules => exact .dropped trivial rfl
    | setEngine tnorm snorm =>
        refine ruleEffect_attempt rfl id fun m' h => ?_
        obtain ⟨norm, conorm, hnorm, hconorm, rfl⟩ := setEngine_eq_ok_iff.1 h
        exact .chosen hnorm hconorm
    | rebindNorm n norm =>
        refine ruleEffect_attempt rfl id fun m' h => ?_
        obtain ⟨r, hr, rfl⟩ := rebindNorm_eq_ok_iff.1 h
        refine ruleEffect_insert id ?_
        rintro rfl
        exact .boundNorm hr (succeeds_of_attempt rfl h)
    | rebindConorm n conorm =>
        refine ruleEffect_attempt rfl id fun m' h => ?_
        obtain ⟨r, hr, rfl⟩ := rebindConorm_eq_ok_iff.1 h
        refine ruleEffect_insert id ?_
        rintro rfl
        exact .boundConorm hr (succeeds_of_attempt rfl h)
    | _ => exact absurd hrules id
  · obtain ⟨hsame, htnorm, hsnorm⟩ := rulebase_perform hrules m
    exact .spared (spares_of_not_onRules hrules) (by rw [hsame]) htnorm hsnorm

/-! ## Rules that stay -/

/-- Unless a rule is taken away, it stays under its name with other operators at most. -/
theorem exists_rule_perform {r : Rule α} (hr : m.rules.get? name = some r)
    (h : ¬ o.Drops name) :
    ∃ norm conorm, (o.perform m).1.rules.get? name = some { r with norm, conorm } := by
  have heffect := ruleEffect_perform o m name
  generalize (o.perform m).1 = m' at heffect ⊢
  cases heffect with
  | spared _ hrule _ _ => exact ⟨r.norm, r.conorm, hrule.trans hr⟩
  | refused _ _ => exact ⟨r.norm, r.conorm, hr⟩
  | dropped hdrops _ => exact absurd hdrops h
  | made hfree _ _ _ _ => exact absurd (hfree.symm.trans hr) (by simp)
  | entered hfree _ _ => exact absurd (hfree.symm.trans hr) (by simp)
  | @boundNorm s norm hs _ =>
      obtain rfl := Option.some.inj (hs.symm.trans hr)
      exact ⟨norm, s.conorm, (Registry.get?_insert ..).trans (if_pos rfl)⟩
  | @boundConorm s conorm hs _ =>
      obtain rfl := Option.some.inj (hs.symm.trans hr)
      exact ⟨s.norm, conorm, (Registry.get?_insert ..).trans (if_pos rfl)⟩
  | @chosen _ _ norm conorm _ _ =>
      refine ⟨(norm.map Binding.stock).getD r.norm, (conorm.map Binding.stock).getD r.conorm, ?_⟩
      rw [withOperators, Registry.get?_map, hr]
      rfl

/-- A rule that is neither taken away nor bound to another operator stays as it is. -/
theorem get?_rules_perform {r : Rule α} (hr : m.rules.get? name = some r) (h : ¬ o.Drops name)
    (hrebinds : ¬ (o.Rebinds name ∧ o.Succeeds m)) :
    (o.perform m).1.rules.get? name = some r := by
  have heffect := ruleEffect_perform o m name
  generalize (o.perform m).1 = m' at heffect ⊢
  cases heffect with
  | spared _ hrule _ _ => exact hrule.trans hr
  | refused _ _ => exact hr
  | dropped hdrops _ => exact absurd hdrops h
  | made hfree _ _ _ _ => exact absurd (hfree.symm.trans hr) (by simp)
  | entered hfree _ _ => exact absurd (hfree.symm.trans hr) (by simp)
  | boundNorm _ hsucceeds => exact absurd ⟨.inl rfl, hsucceeds⟩ hrebinds
  | boundConorm _ hsucceeds => exact absurd ⟨.inr (.inl rfl), hsucceeds⟩ hrebinds
  | @chosen tnorm snorm norm conorm hnorm hconorm =>
      have hsucceeds : (setEngine tnorm snorm).Succeeds m :=
        succeeds_of_attempt rfl (setEngine_eq_ok_iff.2 ⟨_, _, hnorm, hconorm, rfl⟩)
      obtain ⟨-, rfl⟩ | ⟨t, n, rfl, -, -⟩ := mapM_eq_ok_iff.1 hnorm
      · obtain ⟨-, rfl⟩ | ⟨s, n, rfl, -, -⟩ := mapM_eq_ok_iff.1 hconorm
        · rw [withOperators, Registry.get?_map, hr]
          rfl
        · exact absurd ⟨.inr (.inr (.inr rfl)), hsucceeds⟩ hrebinds
      · exact absurd ⟨.inr (.inr (.inl rfl)), hsucceeds⟩ hrebinds

variable {run : List (Operation α)} {r : Rule α}

theorem exists_rule_performAll (hr : m.rules.get? name = some r)
    (h : Along (fun _ o => ¬ o.Drops name) m run) :
    ∃ norm conorm, (performAll m run).rules.get? name = some { r with norm, conorm } := by
  refine h.invariant (fun u => ∃ norm conorm, u.rules.get? name = some { r with norm, conorm })
    ?_ ⟨r.norm, r.conorm, hr⟩
  rintro u o ho ⟨norm, conorm, hu⟩
  obtain ⟨norm', conorm', hu'⟩ := exists_rule_perform hu ho
  exact ⟨norm', conorm', hu'⟩

theorem get?_rules_performAll (hr : m.rules.get? name = some r)
    (h : Along (fun _ o => ¬ o.Drops name) m run)
    (hrebinds : Along (fun u o => ¬ (o.Rebinds name ∧ o.Succeeds u)) m run) :
    (performAll m run).rules.get? name = some r :=
  (h.and hrebinds).invariant (fun u => u.rules.get? name = some r)
    (fun _ _ ho hu => get?_rules_perform hu ho.1 ho.2) hr

end

end FuzzyLogic.Operation
