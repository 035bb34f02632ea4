import FuzzyLogic.Model.Operation
import FuzzyLogic.Proofs.Success

set_option autoImplicit false

/-! # What the operations on a model do

For each operation the condition under which it succeeds and the model that it then leaves. A new
variable and a new label touch the variables only, the choice of an operator touches the operators
and the rules only, so that the two kinds of changes do not see each other. -/

namespace FuzzyLogic

variable {α : Type}

/-! ## Names of operators -/

theorem TNorm.named_eq_ok_iff {name : String} {norm : TNorm} :
    (TNorm.named name : Except (ModelError α) TNorm) = .ok norm
      ↔ TNorm.ofName? name = some norm := by
  unfold TNorm.named
  split
  · next h => simp [h]
  · next h => simp [h]

theorem SNorm.named_eq_ok_iff {name : String} {conorm : SNorm} :
    (SNorm.named name : Except (ModelError α) SNorm) = .ok conorm
      ↔ SNorm.ofName? name = some conorm := by
  unfold SNorm.named
  split
  · next h => simp [h]
  · next h => simp [h]

theorem TNorm.ofName?_name (norm : TNorm) : TNorm.ofName? norm.name = some norm := by
  cases norm <;> decide

theorem SNorm.ofName?_name (conorm : SNorm) : SNorm.ofName? conorm.name = some conorm := by
  cases conorm <;> decide

/-- The name of an operator that is found is the one that it was asked for by, in lower case. -/
theorem TNorm.name_of_ofName? {name : String} {norm : TNorm} (h : TNorm.ofName? name = some norm) :
    norm.name = Text.lower name := by
  have hname := List.find?_some (p := fun n : TNorm => n.name == Text.lower name) h
  exact eq_of_beq hname

theorem SNorm.name_of_ofName? {name : String} {conorm : SNorm}
    (h : SNorm.ofName? name = some conorm) : conorm.name = Text.lower name := by
  have hname := List.find?_some (p := fun n : SNorm => n.name == Text.lower name) h
  exact eq_of_beq hname

/-! ## Variables and labels -/

namespace LinguisticVariable

theorem make_eq_ok_iff [Scalar α] {name : String} {lower upper : α} {v : LinguisticVariable α} :
    make name lower upper = .ok v
      ↔ lower < upper ∧ v = { name, lower, upper, labels := ∅, input := lower } := by
  unfold make
  split
  · next h => simp [h, eq_comm]
  · next h => simp [h]

theorem withLabel_eq_ok_iff {v w : LinguisticVariable α} {l : Label α} :
    v.withLabel l = .ok w
      ↔ v.labels.contains l.name = false ∧ w = { v with labels := v.labels.insert l.name l } := by
  unfold withLabel
  split
  · next h => simp [h]
  · next h => simp [h, eq_comm]

theorem input_withLabel {v w : LinguisticVariable α} {l : Label α} (h : v.withLabel l = .ok w) :
    w.input = v.input := by
  rw [(withLabel_eq_ok_iff.1 h).2]

theorem withInput_eq_ok_iff [Scalar α] {v w : LinguisticVariable α} {x : α} :
    v.withInput x = .ok w ↔ v.admits x = true ∧ w = { v with input := x } := by
  unfold withInput
  split
  · next h => simp [h, eq_comm]
  · next h => simp [h]

end LinguisticVariable

/-- The rule with other operators, as far as they are given. -/
def Rule.withOperators (r : Rule α) (norm : Option TNorm) (conorm : Option SNorm) : Rule α :=
  { r with
    norm := (norm.map Binding.stock).getD r.norm
    conorm := (conorm.map Binding.stock).getD r.conorm }

namespace Model

variable {m m' : Model α}

theorem addVariable_eq_ok_iff [Scalar α] {name : String} {lower upper : α} :
    m.addVariable name lower upper = .ok m'
      ↔ ∃ v, LinguisticVariable.make name lower upper = .ok v ∧ m.database.contains name = false
          ∧ m' = { m with
              pool := m.pool.push v
              database := m.database.insert name ⟨m.pool.size, name⟩ } := by
  unfold addVariable
  rw [bind_eq_ok_iff]
  refine exists_congr fun v => and_congr_right fun _ => ?_
  split
  · next h => simp [h]
  · next h => simp [h, eq_comm]

theorem makeVariable_eq_ok_iff [Scalar α] {name : String} {lower upper : α} :
    m.makeVariable name lower upper = .ok m'
      ↔ ∃ v, LinguisticVariable.make name lower upper = .ok v
          ∧ m' = { m with pool := m.pool.push v } := by
  unfold makeVariable
  rw [bind_eq_ok_iff]
  exact exists_congr fun v => and_congr_right fun _ => pure_eq_ok_iff.trans eq_comm

theorem enterVariable_eq_ok_iff {ref : VariableRef} :
    m.enterVariable ref = .ok m'
      ↔ ∃ v, m.deref? ref = some v ∧ m.database.contains v.name = false
          ∧ m' = { m with database := m.database.insert v.name ⟨ref.id, v.name⟩ } := by
  unfold enterVariable
  split
  · next h => simp [h]
  · next v h =>
      simp only [h, Option.some.injEq, exists_eq_left']
      split
      · next hname => simp [hname]
      · next hname => simp [hname, eq_comm]

theorem removeVariable_eq_ok_iff {name : String} :
    m.removeVariable name = .ok m'
      ↔ m.database.contains name = true ∧ m' = { m with database := m.database.erase name } := by
  unfold removeVariable
  split
  · next h => simp [h, eq_comm]
  · next h => simp [h]

theorem find_eq_ok_iff {name : String} {ref : VariableRef} {v : LinguisticVariable α} :
    m.find name = .ok (ref, v) ↔ m.database.get? name = some ref ∧ m.deref? ref = some v := by
  unfold find
  split
  · next h => simp [h]
  · next found h =>
      split
      · next hd =>
          simp only [h, reduceCtorEq, Option.some.injEq, false_iff, not_and]
          rintro rfl
          simp [hd]
      · next w hd =>
          simp only [h, Except.ok.injEq, Prod.mk.injEq, Option.some.injEq]
          constructor
          · rintro ⟨rfl, rfl⟩
            exact ⟨rfl, hd⟩
          · rintro ⟨rfl, hv⟩
            exact ⟨rfl, Option.some.inj (hd.symm.trans hv)⟩

theorem modify_eq_ok_iff {ref : VariableRef}
    {f : LinguisticVariable α → Except (ModelError α) (LinguisticVariable α)} :
    m.modify ref f = .ok m'
      ↔ ∃ v w, m.deref? ref = some v ∧ f v = .ok w ∧ m' = m.replace ref w := by
  unfold modify
  split
  · next h => simp [h]
  · next v h =>
      simp only [h, Option.some.injEq, exists_and_left, exists_eq_left']
      rw [bind_eq_ok_iff]
      exact exists_congr fun w => and_congr_right fun _ => pure_eq_ok_iff.trans eq_comm

theorem addLabel_eq_ok_iff {ref : VariableRef} {label : String} {function : MembershipFunction α} :
    m.addLabel ref label function = .ok m'
      ↔ ∃ v w, m.deref? ref = some v ∧ v.withLabel ⟨m.labelCount, label, function⟩ = .ok w
          ∧ m' = { m.replace ref w with labelCount := m.labelCount + 1 } := by
  unfold addLabel
  simp only [bind_eq_ok_iff, pure_eq_ok_iff, modify_eq_ok_iff]
  constructor
  · rintro ⟨_, ⟨v, w, hv, hw, rfl⟩, rfl⟩
    exact ⟨v, w, hv, hw, rfl⟩
  · rintro ⟨v, w, hv, hw, rfl⟩
    exact ⟨_, ⟨v, w, hv, hw, rfl⟩, rfl⟩

theorem enterLabel_eq_ok_iff {ref : VariableRef} {l : Label α} :
    m.enterLabel ref l = .ok m'
      ↔ ∃ v w, m.deref? ref = some v ∧ v.withLabel l = .ok w ∧ m' = m.replace ref w :=
  modify_eq_ok_iff

theorem clearLabels_eq_ok_iff {ref : VariableRef} :
    m.clearLabels ref = .ok m'
      ↔ ∃ v, m.deref? ref = some v ∧ m' = m.replace ref v.withoutLabels := by
  simp only [clearLabels, modify_eq_ok_iff, Except.ok.injEq]
  exact exists_congr fun v => by simp

theorem addShapedLabel_eq_ok_iff [Scalar α] {ref : VariableRef} {label shape : String}
    {params : List (Except String α)} :
    m.addShapedLabel ref label shape params = .ok m'
      ↔ ∃ function, MembershipFunction.make shape params = .ok function
          ∧ m.addLabel ref label function = .ok m' := by
  unfold addShapedLabel
  split
  · next h => simp [h]
  · next h => simp [h]

theorem setInput_eq_ok_iff [Scalar α] {ref : VariableRef} {x : α} :
    m.setInput ref x = .ok m'
      ↔ ∃ v, m.deref? ref = some v ∧ v.admits x = true
          ∧ m' = m.replace ref { v with input := x } := by
  simp only [setInput, modify_eq_ok_iff, LinguisticVariable.withInput_eq_ok_iff]
  constructor
  · rintro ⟨v, w, hv, ⟨hx, rfl⟩, rfl⟩
    exact ⟨v, hv, hx, rfl⟩
  · rintro ⟨v, hv, hx, rfl⟩
    exact ⟨v, _, hv, ⟨hx, rfl⟩, rfl⟩

theorem assign_eq_ok_iff [Scalar α] {clamp : Bool} {name : String} {x : α} :
    m.assign clamp name x = .ok m'
      ↔ ∃ ref v, m.database.get? name = some ref ∧ m.deref? ref = some v
          ∧ m.setInput ref (if clamp then v.clamp x else x) = .ok m' := by
  unfold assign
  rw [bind_eq_ok_iff]
  constructor
  · rintro ⟨⟨ref, v⟩, hfind, hset⟩
    obtain ⟨href, hv⟩ := find_eq_ok_iff.1 hfind
    exact ⟨ref, v, href, hv, hset⟩
  · rintro ⟨ref, v, href, hv, hset⟩
    exact ⟨(ref, v), find_eq_ok_iff.2 ⟨href, hv⟩, hset⟩

/-! ## Rules -/

theorem compile_eq_ok_iff {name text : String} {norm : Binding TNorm α} {conorm : Binding SNorm α}
    {r : Rule α} :
    m.compile name text norm conorm = .ok r
      ↔ ∃ c, Rule.compile m.scope text = .ok c
          ∧ r = { name, text, program := c.program, output := c.consequent, norm, conorm } := by
  unfold compile
  split
  · next c h => simp [h, eq_comm]
  · next h => simp [h]

theorem addRule_eq_ok_iff {r : Rule α} :
    m.addRule r = .ok m'
      ↔ m.rules.contains r.name = false ∧ m' = { m with rules := m.rules.insert r.name r } := by
  unfold addRule
  split
  · next h => simp [h]
  · next h => simp [h, eq_comm]

theorem addBoundRule_eq_ok_iff {name text : String} {norm : Binding TNorm α}
    {conorm : Binding SNorm α} :
    m.addBoundRule name text norm conorm = .ok m'
      ↔ ∃ r, m.compile name text norm conorm = .ok r ∧ m.addRule r = .ok m' :=
  bind_eq_ok_iff

theorem removeRule_eq_ok_iff {name : String} :
    m.removeRule name = .ok m'
      ↔ m.rules.contains name = true ∧ m' = { m with rules := m.rules.erase name } := by
  unfold removeRule
  split
  · next h => simp [h, eq_comm]
  · next h => simp [h]

theorem rule_eq_ok_iff {name : String} {r : Rule α} :
    m.rule name = .ok r ↔ m.rules.get? name = some r := by
  unfold rule
  split
  · next h => simp [h]
  · next h => simp [h]

theorem newRule_eq_ok_iff {name text : String} :
    m.newRule name text = .ok m'
      ↔ ∃ norm conorm r, TNorm.ofName? m.tnorm = some norm ∧ SNorm.ofName? m.snorm = some conorm
          ∧ m.compile name text (.stock norm) (.stock conorm) = .ok r ∧ m.addRule r = .ok m' := by
  simp only [newRule, bind_eq_ok_iff, TNorm.named_eq_ok_iff, SNorm.named_eq_ok_iff]
  constructor
  · rintro ⟨norm, hnorm, conorm, hconorm, r, hr, h⟩
    exact ⟨norm, conorm, r, hnorm, hconorm, hr, h⟩
  · rintro ⟨norm, conorm, r, hnorm, hconorm, hr, h⟩
    exact ⟨norm, hnorm, conorm, hconorm, r, hr, h⟩

/-! ## Operators -/

theorem rebindNorm_eq_ok_iff {name : String} {norm : Binding TNorm α} :
    m.rebindNorm name norm = .ok m'
      ↔ ∃ r, m.rules.get? name = some r
          ∧ m' = { m with rules := m.rules.insert name { r with norm } } := by
  simp only [rebindNorm, bind_eq_ok_iff, rule_eq_ok_iff, pure_eq_ok_iff]
  exact exists_congr fun r => and_congr_right fun _ => eq_comm

theorem rebindConorm_eq_ok_iff {name : String} {conorm : Binding SNorm α} :
    m.rebindConorm name conorm = .ok m'
      ↔ ∃ r, m.rules.get? name = some r
          ∧ m' = { m with rules := m.rules.insert name { r with conorm } } := by
  simp only [rebindConorm, bind_eq_ok_iff, rule_eq_ok_iff, pure_eq_ok_iff]
  exact exists_congr fun r => and_congr_right fun _ => eq_comm

/-- The model with other operators, as far as they are given, for its rules and for new ones. -/
def withOperators (m : Model α) (norm : Option TNorm) (conorm : Option SNorm) : Model α :=
  { m with
    rules := m.rules.map fun r => r.withOperators norm conorm
    tnorm := (norm.map TNorm.name).getD m.tnorm
    snorm := (conorm.map SNorm.name).getD m.snorm }

theorem setEngine_eq_ok_iff {tnorm snorm : Option String} :
    m.setEngine tnorm snorm = .ok m'
      ↔ ∃ norm conorm, tnorm.mapM TNorm.named = (.ok norm : Except (ModelError α) _)
          ∧ snorm.mapM SNorm.named = (.ok conorm : Except (ModelError α) _)
          ∧ m' = m.withOperators norm conorm := by
  simp only [setEngine, bind_eq_ok_iff, pure_eq_ok_iff]
  constructor
  · rintro ⟨norm, hnorm, conorm, hconorm, rfl⟩
    exact ⟨norm, conorm, hnorm, hconorm, rfl⟩
  · rintro ⟨norm, conorm, hnorm, hconorm, rfl⟩
    exact ⟨norm, hnorm, conorm, hconorm, rfl⟩

/-- The model with another AND, for its rules and for new ones. -/
def withNorm (m : Model α) (norm : TNorm) : Model α :=
  { m with rules := m.rules.map fun r => { r with norm := .stock norm }, tnorm := norm.name }

/-- The model with another OR, for its rules and for new ones. -/
def withConorm (m : Model α) (conorm : SNorm) : Model α :=
  { m with rules := m.rules.map fun r => { r with conorm := .stock conorm }, snorm := conorm.name }

theorem setEngine_norm (m : Model α) (name : String) :
    m.setEngine (some name) none = (TNorm.named name).map m.withNorm := by
  cases h : (TNorm.named name : Except (ModelError α) TNorm) <;>
    simp [setEngine, h, Except.map, bind, Except.bind, Functor.map, pure, Except.pure, withNorm]

theorem setEngine_conorm (m : Model α) (name : String) :
    m.setEngine none (some name) = (SNorm.named name).map m.withConorm := by
  cases h : (SNorm.named name : Except (ModelError α) SNorm) <;>
    simp [setEngine, h, Except.map, bind, Except.bind, Functor.map, pure, Except.pure, withConorm]

/-! ## Independent changes -/

/-- The change sees neither the variables nor the labels. -/
def OperatorsOnly (f : Model α → Model α) : Prop :=
  ∀ m pool labelCount database,
    f { m with pool, labelCount, database } = { f m with pool, labelCount, database }

theorem operatorsOnly_withNorm (norm : TNorm) :
    OperatorsOnly fun m : Model α => m.withNorm norm :=
  fun _ _ _ _ => rfl

theorem operatorsOnly_withConorm (conorm : SNorm) :
    OperatorsOnly fun m : Model α => m.withConorm conorm :=
  fun _ _ _ _ => rfl

theorem withNorm_withConorm (norm : TNorm) (conorm : SNorm) :
    (m.withNorm norm).withConorm conorm = (m.withConorm conorm).withNorm norm := by
  simp [withNorm, withConorm, Registry.map, Function.comp_def]

namespace OperatorsOnly

variable {f : Model α → Model α}

theorem self_eq (hf : OperatorsOnly f) (m : Model α) :
    f m = { f m with pool := m.pool, labelCount := m.labelCount, database := m.database } :=
  hf m m.pool m.labelCount m.database

theorem database_eq (hf : OperatorsOnly f) (m : Model α) : (f m).database = m.database := by
  rw [hf.self_eq]

theorem addVariable_eq [Scalar α] (hf : OperatorsOnly f) (m : Model α) (name : String)
    (lower upper : α) :
    (f m).addVariable name lower upper = (m.addVariable name lower upper).map f := by
  rw [hf.self_eq]
  unfold addVariable
  cases LinguisticVariable.make name lower upper with
  | error e => rfl
  | ok v =>
      by_cases hname : m.database.contains name
      · simp [hname, bind, Except.bind, Except.map]
      · simp only [hname, bind, Except.bind, Except.map]
        exact congrArg Except.ok (hf m _ m.labelCount _).symm

theorem addShapedLabel_eq [Scalar α] (hf : OperatorsOnly f) (m : Model α) (ref : VariableRef)
    (label shape : String) (params : List (Except String α)) :
    (f m).addShapedLabel ref label shape params
      = (m.addShapedLabel ref label shape params).map f := by
  rw [hf.self_eq]
  unfold addShapedLabel addLabel modify deref?
  cases MembershipFunction.make shape params with
  | error e => rfl
  | ok function =>
      cases m.pool[ref.id]? with
      | none => rfl
      | some v =>
          simp only
          cases v.withLabel ⟨m.labelCount, label, function⟩ with
          | error e => rfl
          | ok w => exact congrArg Except.ok (hf m _ _ m.database).symm

end OperatorsOnly

/-- A new variable and a label of another variable can be made in either order. -/
theorem addLabel_addVariable_iff [Scalar α] {ref : VariableRef} {label name : String}
    {function : MembershipFunction α} {lower upper : α} (href : ref.id < m.pool.size) :
    (∃ u, m.addLabel ref label function = .ok u ∧ u.addVariable name lower upper = .ok m') ↔
      ∃ u, m.addVariable name lower upper = .ok u ∧ u.addLabel ref label function = .ok m' := by
  have hderef (v : LinguisticVariable α) : (m.pool.push v)[ref.id]? = m.pool[ref.id]? := by
    rw [Array.getElem?_push, if_neg (Nat.ne_of_lt href)]
  -- The label's variable keeps its place in the pool when another one is put behind it.
  have hpush (v w : LinguisticVariable α) :
      (m.pool.push v).setIfInBounds ref.id w = (m.pool.setIfInBounds ref.id w).push v := by
    rw [Array.push_eq_append, Array.setIfInBounds_append_left href, Array.push_eq_append]
  constructor
  · rintro ⟨u, hlabel, hvariable⟩
    obtain ⟨v, w, hv, hw, rfl⟩ := addLabel_eq_ok_iff.1 hlabel
    obtain ⟨x, hx, hname, rfl⟩ := addVariable_eq_ok_iff.1 hvariable
    refine ⟨_, addVariable_eq_ok_iff.2 ⟨x, hx, hname, rfl⟩, ?_⟩
    refine addLabel_eq_ok_iff.2 ⟨v, w, (hderef x).trans hv, hw, ?_⟩
    simp [replace, hpush]
  · rintro ⟨u, hvariable, hlabel⟩
    obtain ⟨x, hx, hname, rfl⟩ := addVariable_eq_ok_iff.1 hvariable
    obtain ⟨v, w, hv, hw, rfl⟩ := addLabel_eq_ok_iff.1 hlabel
    refine ⟨_, addLabel_eq_ok_iff.2 ⟨v, w, (hderef x).symm.trans hv, hw, rfl⟩, ?_⟩
    refine addVariable_eq_ok_iff.2 ⟨x, hx, hname, ?_⟩
    simp [replace, hpush]

/-! ## References -/

theorem lt_size_of_deref? {ref : VariableRef} {v : LinguisticVariable α}
    (hv : m.deref? ref = some v) : ref.id < m.pool.size :=
  (Array.getElem?_eq_some_iff.1 hv).1

theorem deref?_congr {ref ref' : VariableRef} (hid : ref.id = ref'.id) :
    m.deref? ref' = m.deref? ref :=
  congrArg (m.pool[·]?) hid.symm

theorem deref?_replace_self {ref : VariableRef} {v : LinguisticVariable α}
    (hv : m.deref? ref = some v) (w : LinguisticVariable α) :
    (m.replace ref w).deref? ref = some w := by
  simp only [deref?, replace, Array.getElem?_setIfInBounds, lt_size_of_deref? hv, if_true]

theorem deref?_replace_of_ne {ref ref' : VariableRef} (h : ref.id ≠ ref'.id)
    (w : LinguisticVariable α) : (m.replace ref w).deref? ref' = m.deref? ref' :=
  Array.getElem?_setIfInBounds_ne h

/-- A reference to a variable that changes sees the change, and no other reference does. -/
theorem deref?_replace_cases {ref : VariableRef} {v : LinguisticVariable α}
    (hv : m.deref? ref = some v) (w : LinguisticVariable α) (other : VariableRef) :
    (m.deref? other = some v ∧ (m.replace ref w).deref? other = some w) ∨
      (m.replace ref w).deref? other = m.deref? other := by
  by_cases hid : ref.id = other.id
  · left
    rw [deref?_congr hid, deref?_congr hid]
    exact ⟨hv, deref?_replace_self hv w⟩
  · exact .inr (deref?_replace_of_ne hid w)

/-- Models in which a name means the same variable find the same under it. -/
theorem find_congr {u : Model α} {name : String} (hdatabase : u.database = m.database)
    (hderef : ∀ ref, m.database.get? name = some ref → u.deref? ref = m.deref? ref) :
    u.find name = m.find name := by
  unfold find
  rw [hdatabase]
  cases h : m.database.get? name with
  | none => rfl
  | some ref => simp only [hderef ref h]

/-- A new variable is the one with the next number. -/
theorem deref?_push (m : Model α) (v : LinguisticVariable α) (ref : VariableRef) :
    ({ m with pool := m.pool.push v } : Model α).deref? ref
      = if ref.id = m.pool.size then some v else m.deref? ref := by
  simp only [deref?, Array.getElem?_push]

/-- All variables of the one model are in the other, under the same names. -/
def Keeps (m m' : Model α) : Prop :=
  ∀ ref v, m.deref? ref = some v → ∃ w, m'.deref? ref = some w ∧ w.name = v.name

theorem Keeps.refl (m : Model α) : m.Keeps m :=
  fun _ v hv => ⟨v, hv, rfl⟩

theorem Keeps.trans {m u m' : Model α} (h : m.Keeps u) (h' : u.Keeps m') : m.Keeps m' := by
  intro ref v hv
  obtain ⟨w, hw, hname⟩ := h ref v hv
  obtain ⟨x, hx, hname'⟩ := h' ref w hw
  exact ⟨x, hx, hname'.trans hname⟩

theorem keeps_replace {m : Model α} {ref : VariableRef} {v w : LinguisticVariable α}
    (hv : m.deref? ref = some v) (hname : w.name = v.name) : m.Keeps (m.replace ref w) := by
  intro other u hu
  obtain ⟨hother, hw⟩ | hsame := deref?_replace_cases hv w other
  · obtain rfl := Option.some.inj (hu.symm.trans hother)
    exact ⟨w, hw, hname⟩
  · exact ⟨u, hsame.trans hu, rfl⟩

/-- The database refers to variables that exist. -/
def Grounded (m : Model α) : Prop :=
  ∀ name ref, m.database.get? name = some ref → ref.id < m.pool.size

theorem grounded_empty (tnorm snorm : String) : (empty tnorm snorm : Model α).Grounded := by
  intro name ref href
  exact absurd href (by simp [empty, EmptyCollection.emptyCollection])

theorem Grounded.addVariable [Scalar α] {name : String} {lower upper : α} (hm : m.Grounded)
    (h : m.addVariable name lower upper = .ok m') : m'.Grounded := by
  obtain ⟨v, -, -, rfl⟩ := addVariable_eq_ok_iff.1 h
  intro other ref href
  rw [Registry.get?_insert] at href
  rw [Array.size_push]
  split at href
  · next heq =>
      cases href
      exact Nat.lt_succ_self _
  · next hne => exact Nat.lt_succ_of_lt (hm other ref href)

theorem Grounded.addLabel {ref : VariableRef} {label : String} {function : MembershipFunction α}
    (hm : m.Grounded) (h : m.addLabel ref label function = .ok m') : m'.Grounded := by
  obtain ⟨v, w, -, -, rfl⟩ := addLabel_eq_ok_iff.1 h
  intro other ref' href
  simpa [replace] using hm other ref' href

end Model

end FuzzyLogic
