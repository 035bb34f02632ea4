import FuzzyLogic.Proofs.Model.Update
import FuzzyLogic.Proofs.ModelFile.Phases

set_option autoImplicit false

/-! # What a directive does

In the first pass a directive for a variable or a label changes the variables of the model, any
other one at most its operators. Here each directive has the condition under which it is taken in
and the model that it leaves, and what all of them keep. -/

namespace FuzzyLogic.ModelFile

/-! ## Kinds -/

/-- The kinds of directives. -/
inductive Kind where
  | variable
  | label
  | norm
  | conorm
  | input
  | rule
  deriving Repr, DecidableEq

/-- The kind of a directive. -/
def Directive.kind : Directive → Kind
  | .makeVariable _ _ _ => .variable
  | .makeLabel _ _ _ _ => .label
  | .chooseNorm _ => .norm
  | .chooseConorm _ => .conorm
  | .setInput _ _ => .input
  | .addRule _ _ => .rule

/-- The directives of one kind. -/
def ofKind (k : Kind) (directives : List Directive) : List Directive :=
  directives.filter fun directive => directive.kind = k

theorem inputsOf_ofKind (directives : List Directive) :
    inputsOf (ofKind .input directives) = inputsOf directives := by
  induction directives with
  | nil => rfl
  | cons directive rest ih =>
      cases directive with
      | setInput name x => exact congrArg ((name, x) :: ·) ih
      | _ => exact ih

theorem rulesOf_ofKind (n : Nat) (directives : List Directive) :
    rulesOf n (ofKind .rule directives) = rulesOf n directives := by
  induction directives generalizing n with
  | nil => rfl
  | cons directive rest ih =>
      cases directive with
      | addRule name text =>
          cases name with
          | none => exact congrArg ((automaticName (n + 1), text) :: ·) (ih (n + 1))
          | some name => exact congrArg ((name, text) :: ·) (ih n)
      | _ => exact ih n

/-! ## Taking in one directive -/

theorem takeAll_cons_eq_ok_iff {m t : Model Float} {directive : Directive} {rest : List Directive} :
    takeAll m (directive :: rest) = .ok t ↔
      ∃ u, takeIn m directive = .ok u ∧ takeAll u rest = .ok t :=
  foldlM_cons_eq_ok_iff

theorem takeIn_makeLabel_eq_ok_iff {m t : Model Float} {owner label shape : String}
    {params : List String} :
    takeIn m (.makeLabel owner label shape params) = .ok t ↔
      ∃ ref function, m.database.get? owner = some ref ∧
        MembershipFunction.make shape (readParams params) = .ok function ∧
        m.addLabel ref label function = .ok t := by
  rw [takeIn, makeLabel]
  split
  · next h => simp [h]
  · next ref h => simp [h, Model.addShapedLabel_eq_ok_iff]

theorem takeIn_makeVariable_eq_ok_iff {m t : Model Float} {name : String} {lower upper : Float} :
    takeIn m (.makeVariable name lower upper) = .ok t ↔ m.addVariable name lower upper = .ok t :=
  onModel_eq_ok_iff

theorem takeIn_chooseNorm_eq_ok_iff {m t : Model Float} {name : String} :
    takeIn m (.chooseNorm name) = .ok t ↔
      ∃ norm, TNorm.ofName? name = some norm ∧ m.withNorm norm = t := by
  simp only [takeIn, onModel_eq_ok_iff, Model.setEngine_norm, map_eq_ok_iff, TNorm.named_eq_ok_iff]

theorem takeIn_chooseConorm_eq_ok_iff {m t : Model Float} {name : String} :
    takeIn m (.chooseConorm name) = .ok t ↔
      ∃ conorm, SNorm.ofName? name = some conorm ∧ m.withConorm conorm = t := by
  simp only [takeIn, onModel_eq_ok_iff, Model.setEngine_conorm, map_eq_ok_iff,
    SNorm.named_eq_ok_iff]

/-- The change of the operators that a directive asks for, if it names one. Inputs and rules change
nothing in the first pass. -/
def Directive.operatorChange : Directive → Option (Model Float → Model Float)
  | .makeVariable _ _ _ => none
  | .makeLabel _ _ _ _ => none
  | .chooseNorm name => (TNorm.ofName? name).map fun norm m => m.withNorm norm
  | .chooseConorm name => (SNorm.ofName? name).map fun conorm m => m.withConorm conorm
  | .setInput _ _ => some id
  | .addRule _ _ => some id

/-- The directive is about a variable or a label. -/
def Directive.Builds (directive : Directive) : Prop :=
  directive.kind = .variable ∨ directive.kind = .label

theorem operatorsOnly_of_operatorChange {directive : Directive} {f : Model Float → Model Float}
    (h : directive.operatorChange = some f) : Model.OperatorsOnly f := by
  cases directive with
  | makeVariable name lower upper => exact absurd h (by simp [Directive.operatorChange])
  | makeLabel owner label shape params => exact absurd h (by simp [Directive.operatorChange])
  | chooseNorm name =>
      obtain ⟨norm, -, rfl⟩ := Option.map_eq_some_iff.1 h
      exact Model.operatorsOnly_withNorm norm
  | chooseConorm name =>
      obtain ⟨conorm, -, rfl⟩ := Option.map_eq_some_iff.1 h
      exact Model.operatorsOnly_withConorm conorm
  | setInput name x =>
      obtain rfl := Option.some.inj h
      exact fun _ _ _ _ => rfl
  | addRule name text =>
      obtain rfl := Option.some.inj h
      exact fun _ _ _ _ => rfl

theorem takeIn_eq_ok_iff_operatorChange {m t : Model Float} {directive : Directive}
    (h : ¬ directive.Builds) :
    takeIn m directive = .ok t ↔ ∃ f, directive.operatorChange = some f ∧ f m = t := by
  have hchange {β : Type} (named : Option β) (change : β → Model Float → Model Float) :
      (∃ b, named = some b ∧ change b m = t) ↔ ∃ f, named.map change = some f ∧ f m = t := by
    cases named <;> simp
  cases directive with
  | makeVariable name lower upper => exact absurd (.inl rfl) h
  | makeLabel owner label shape params => exact absurd (.inr rfl) h
  | chooseNorm name =>
      rw [takeIn_chooseNorm_eq_ok_iff]
      exact hchange (TNorm.ofName? name) fun norm m => m.withNorm norm
  | chooseConorm name =>
      rw [takeIn_chooseConorm_eq_ok_iff]
      exact hchange (SNorm.ofName? name) fun conorm m => m.withConorm conorm
  | setInput name x => simp [takeIn, Directive.operatorChange]
  | addRule name text => simp [takeIn, Directive.operatorChange]

/-- The names of variables grow by the variable that the directive makes. -/
theorem contains_of_takeIn {m t : Model Float} {directive : Directive}
    (h : takeIn m directive = .ok t) (name : String) :
    t.database.contains name = true ↔
      m.database.contains name = true ∨
        ∃ lower upper, directive = .makeVariable name lower upper := by
  cases directive with
  | makeVariable other lower upper =>
      obtain ⟨v, -, -, rfl⟩ := Model.addVariable_eq_ok_iff.1 (takeIn_makeVariable_eq_ok_iff.1 h)
      by_cases hname : name = other
      · simp [Registry.contains, Registry.get?_insert, hname]
      · simp [Registry.contains, Registry.get?_insert, hname, Ne.symm hname]
  | makeLabel owner label shape params =>
      obtain ⟨ref, function, -, -, hlabel⟩ := takeIn_makeLabel_eq_ok_iff.1 h
      obtain ⟨v, w, -, -, rfl⟩ := Model.addLabel_eq_ok_iff.1 hlabel
      simp [Model.replace]
  | _ =>
      obtain ⟨f, hf, rfl⟩ := (takeIn_eq_ok_iff_operatorChange (by simp [Directive.Builds,
        Directive.kind])).1 h
      simp [(operatorsOnly_of_operatorChange hf).database_eq]

theorem grounded_of_takeIn {m t : Model Float} {directive : Directive} (hm : m.Grounded)
    (h : takeIn m directive = .ok t) : t.Grounded := by
  cases directive with
  | makeVariable name lower upper => exact hm.addVariable (takeIn_makeVariable_eq_ok_iff.1 h)
  | makeLabel owner label shape params =>
      obtain ⟨ref, function, -, -, hlabel⟩ := takeIn_makeLabel_eq_ok_iff.1 h
      exact hm.addLabel hlabel
  | _ =>
      obtain ⟨f, hf, rfl⟩ := (takeIn_eq_ok_iff_operatorChange (by simp [Directive.Builds,
        Directive.kind])).1 h
      rw [(operatorsOnly_of_operatorChange hf).self_eq]
      exact hm

/-- A change of the operators is not seen by a directive for a variable or a label. -/
theorem takeIn_operatorsOnly {f : Model Float → Model Float} (hf : Model.OperatorsOnly f)
    {directive : Directive} (hbuilds : directive.Builds) (m : Model Float) :
    takeIn (f m) directive = (takeIn m directive).map f := by
  have honModel (x : Except (ModelError Float) (Model Float)) :
      onModel (x.map f) = (onModel x).map f := by
    cases x <;> rfl
  cases directive with
  | makeVariable name lower upper => rw [takeIn, hf.addVariable_eq, honModel, takeIn]
  | makeLabel owner label shape params =>
      rw [takeIn, takeIn, makeLabel, makeLabel, hf.database_eq]
      cases m.database.get? owner with
      | none => rfl
      | some ref => exact (congrArg onModel (hf.addShapedLabel_eq _ _ _ _ _)).trans (honModel _)
  | _ => exact absurd hbuilds (by simp [Directive.Builds, Directive.kind])

end FuzzyLogic.ModelFile
