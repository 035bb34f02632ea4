import FuzzyLogic.Proofs.Model.Engine
import FuzzyLogic.Proofs.ModelFile.Content

set_option autoImplicit false

/-! # Choices and inputs at the end

Directives that choose operators and set inputs, put behind those of a model, have the effect of the
same operations on the loaded model. On the way of loading they come before the rules: there the
operators are chosen before any rule is made, and the inputs are set before any rule is compiled.
That it makes no difference is a matter of exchanging operations: the operators of a rule follow
those of the model, and no rule is compiled to anything else for other inputs. -/

namespace FuzzyLogic

variable {α : Type}

/-! ## Exchanging operations -/

namespace Model

theorem withOperators_none (m : Model α) : m.withOperators none none = m := by
  have hid : (fun r : Rule α => r.withOperators none none) = id := rfl
  have hrules : m.rules.map (fun r => r.withOperators none none) = m.rules := by
    rw [hid]
    simp [Registry.map]
  rw [withOperators, hrules]
  rfl

theorem setEngine_none (m : Model α) : m.setEngine none none = .ok m :=
  congrArg Except.ok m.withOperators_none

theorem withOperators_withOperators (m : Model α) (norm : Option TNorm) (conorm : Option SNorm) :
    (m.withOperators norm none).withOperators none conorm = m.withOperators norm conorm := by
  simp [withOperators, Registry.map, Rule.withOperators, Function.comp_def]

theorem operatorsOnly_withOperators (norm : Option TNorm) (conorm : Option SNorm) :
    OperatorsOnly fun m : Model α => m.withOperators norm conorm :=
  fun _ _ _ _ => rfl

theorem OperatorsOnly.assign_eq [Scalar α] {f : Model α → Model α} (hf : OperatorsOnly f)
    (m : Model α) (clamp : Bool) (name : String) (x : α) :
    (f m).assign clamp name x = (m.assign clamp name x).map f := by
  rw [hf.self_eq]
  unfold assign find setInput modify deref?
  cases m.database.get? name with
  | none => rfl
  | some ref =>
      cases hv : m.pool[ref.id]? with
      | none => simp only [hv]; rfl
      | some v =>
          simp only [hv, bind, Except.bind]
          cases v.withInput (if clamp then v.clamp x else x) with
          | error e => rfl
          | ok w => exact congrArg Except.ok (hf m _ m.labelCount m.database).symm

/-- The names of a model mean the same whatever its inputs. -/
theorem scope_replace {m : Model α} {ref : VariableRef} {v w : LinguisticVariable α}
    (hv : m.deref? ref = some v) (hlabels : w.labels = v.labels) :
    (m.replace ref w).scope = m.scope := by
  have hlabel : (m.replace ref w).labelOf? = m.labelOf? := by
    funext other label
    unfold labelOf?
    obtain ⟨hold, hnew⟩ | hsame := deref?_replace_cases hv w other
    · rw [hold, hnew, Option.bind_some, Option.bind_some, hlabels]
    · rw [hsame]
  unfold scope
  rw [hlabel]
  rfl

/-- A rule can be made before or after an input is set. -/
theorem newRule_assign_iff [Scalar α] {m t : Model α} {rule text name : String} {clamp : Bool}
    {x : α} :
    (∃ u, m.newRule rule text = .ok u ∧ u.assign clamp name x = .ok t) ↔
      ∃ u, m.assign clamp name x = .ok u ∧ u.newRule rule text = .ok t := by
  have hcompile {ref : VariableRef} {v : LinguisticVariable α} {y : α}
      (hv : m.deref? ref = some v) (norm : TNorm) (conorm : SNorm) :
      (m.replace ref { v with input := y }).compile rule text (.stock norm) (.stock conorm)
        = m.compile rule text (.stock norm) (.stock conorm) := by
    rw [compile, compile, scope_replace (w := { v with input := y }) hv rfl]
  constructor
  · rintro ⟨u, hrule, hassign⟩
    obtain ⟨norm, conorm, r, hnorm, hconorm, hr, hadd⟩ := newRule_eq_ok_iff.1 hrule
    obtain ⟨hfree, rfl⟩ := addRule_eq_ok_iff.1 hadd
    obtain ⟨ref, v, href, hv, hset⟩ := assign_eq_ok_iff.1 hassign
    obtain ⟨w, hw, hx, rfl⟩ := setInput_eq_ok_iff.1 hset
    refine ⟨_, assign_eq_ok_iff.2 ⟨ref, v, href, hv, setInput_eq_ok_iff.2 ⟨w, hw, hx, rfl⟩⟩, ?_⟩
    exact newRule_eq_ok_iff.2 ⟨norm, conorm, r, hnorm, hconorm, (hcompile hw norm conorm).trans hr,
      addRule_eq_ok_iff.2 ⟨hfree, rfl⟩⟩
  · rintro ⟨u, hassign, hrule⟩
    obtain ⟨ref, v, href, hv, hset⟩ := assign_eq_ok_iff.1 hassign
    obtain ⟨w, hw, hx, rfl⟩ := setInput_eq_ok_iff.1 hset
    obtain ⟨norm, conorm, r, hnorm, hconorm, hr, hadd⟩ := newRule_eq_ok_iff.1 hrule
    obtain ⟨hfree, rfl⟩ := addRule_eq_ok_iff.1 hadd
    refine ⟨_, newRule_eq_ok_iff.2 ⟨norm, conorm, r, hnorm, hconorm,
      (hcompile hw norm conorm).symm.trans hr, addRule_eq_ok_iff.2 ⟨hfree, rfl⟩⟩, ?_⟩
    exact assign_eq_ok_iff.2 ⟨ref, v, href, hv, setInput_eq_ok_iff.2 ⟨w, hw, hx, rfl⟩⟩

end Model

namespace ModelFile

/-! ## Choices and inputs -/

/-- The directives that choose the operators, as far as they are given, and set the inputs. -/
def overrides (tnorm snorm : Option String) (inputs : List (String × Float)) : List Directive :=
  tnorm.toList.map .chooseNorm ++ snorm.toList.map .chooseConorm ++
    inputs.map fun (name, x) => .setInput name x

theorem inputsOf_append_overrides (directives : List Directive) (tnorm snorm : Option String)
    (inputs : List (String × Float)) :
    inputsOf (directives ++ overrides tnorm snorm inputs) = inputsOf directives ++ inputs := by
  have hset : inputsOf (inputs.map fun (name, x) => .setInput name x) = inputs := by
    induction inputs with
    | nil => rfl
    | cons input rest ih => exact congrArg (input :: ·) ih
  have hinputs : inputsOf (overrides tnorm snorm inputs) = inputs := by
    cases tnorm <;> cases snorm <;> exact hset
  rw [inputsOf_eq_filterMap, List.filterMap_append, ← inputsOf_eq_filterMap,
    ← inputsOf_eq_filterMap, hinputs]

theorem rulesOf_append_overrides (directives : List Directive) (tnorm snorm : Option String)
    (inputs : List (String × Float)) :
    rulesOf 0 (directives ++ overrides tnorm snorm inputs) = rulesOf 0 directives := by
  have hrules : ofKind .rule (overrides tnorm snorm inputs) = [] := by
    refine List.filter_eq_nil_iff.2 fun directive hmem => ?_
    simp only [overrides, List.mem_append, List.mem_map] at hmem
    obtain (⟨_, _, rfl⟩ | ⟨_, _, rfl⟩) | ⟨_, _, rfl⟩ := hmem <;> simp [Directive.kind]
  have hkind : ofKind .rule (directives ++ overrides tnorm snorm inputs)
      = ofKind .rule directives := by
    rw [ofKind, List.filter_append, ← ofKind, ← ofKind, hrules, List.append_nil]
  rw [← rulesOf_ofKind, hkind, rulesOf_ofKind]

/-- A choice that is given or not is a directive or none. -/
theorem takeAll_toList_eq_ok_iff (directive : String → Directive)
    (choose : Model Float → Option String → Except (ModelError Float) (Model Float))
    (hnone : ∀ m, choose m none = .ok m)
    (hsome : ∀ m name, takeIn m (directive name) = onModel (choose m (some name)))
    (m t : Model Float) (name : Option String) :
    takeAll m (name.toList.map directive) = .ok t ↔ choose m name = .ok t := by
  cases name with
  | none =>
      rw [hnone, Except.ok.injEq, eq_comm (a := m)]
      exact foldlM_nil_eq_ok_iff
  | some name => simp [takeAll, hsome]

/-- In the first pass choices are choices of the model, and inputs wait. -/
theorem takeAll_overrides_eq_ok_iff {m t : Model Float} {tnorm snorm : Option String}
    {inputs : List (String × Float)} :
    takeAll m (overrides tnorm snorm inputs) = .ok t ↔
      ∃ u, m.setEngine tnorm none = .ok u ∧ u.setEngine none snorm = .ok t := by
  have hnorm := takeAll_toList_eq_ok_iff .chooseNorm (fun u name => u.setEngine name none)
    Model.setEngine_none (fun _ _ => rfl)
  have hconorm := takeAll_toList_eq_ok_iff .chooseConorm (fun u name => u.setEngine none name)
    Model.setEngine_none (fun _ _ => rfl)
  have hinputs (u : Model Float) :
      takeAll u (inputs.map fun (name, x) => .setInput name x) = .ok u := by
    induction inputs with
    | nil => rfl
    | cons input rest ih => exact ih
  unfold takeAll at hnorm hconorm hinputs
  simp only [takeAll, overrides, foldlM_append_eq_ok_iff, hnorm, hconorm, hinputs, Except.ok.injEq]
  simp

/-! ## Loading -/

/-- The operators that the model names are operators. -/
def Named (m : Model Float) : Prop :=
  (∃ norm, TNorm.ofName? m.tnorm = some norm) ∧ ∃ conorm, SNorm.ofName? m.snorm = some conorm

theorem named_of_takeAll {m t : Model Float} {directives : List Directive} (hm : Named m)
    (h : takeAll m directives = .ok t) : Named t := by
  have hkept {κ : Type} {ofName? : String → Option κ} {toName : κ → String}
      (hname : ∀ k, ofName? (toName k) = some k) {before after : String}
      {choice? : Option (List String)} (hchooses : Chooses ofName? toName before after choice?)
      (hbefore : ∃ k, ofName? before = some k) : ∃ k, ofName? after = some k := by
    cases choice? with
    | none =>
        obtain rfl : after = before := hchooses
        exact hbefore
    | some words =>
        obtain ⟨_, k, -, -, rfl⟩ := hchooses
        exact ⟨k, hname k⟩
  refine foldlM_invariant Named (fun u v directive _ hu hv => ?_) hm h
  obtain ⟨⟨norm, hnorm⟩, conorm, hconorm⟩ := hu
  obtain ⟨htnorm, hsnorm⟩ := chooses_of_takeIn hv
  exact ⟨hkept TNorm.ofName?_name htnorm ⟨norm, hnorm⟩,
    hkept SNorm.ofName?_name hsnorm ⟨conorm, hconorm⟩⟩

theorem named_of_enterInputs {m t : Model Float} {inputs : List (String × Float)} (hm : Named m)
    (h : enterInputs m inputs = .ok t) : Named t := by
  refine foldlM_invariant Named (fun u v input _ hu hv => ?_) hm h
  obtain ⟨ref, w, -, -, hset⟩ := Model.assign_eq_ok_iff.1 hv
  obtain ⟨_, -, -, rfl⟩ := Model.setInput_eq_ok_iff.1 hset
  exact hu

theorem named_of_enterRules {m t : Model Float} {rules : List (String × String)} (hm : Named m)
    (h : enterRules m rules = .ok t) : Named t := by
  refine foldlM_invariant Named (fun u v rule _ hu hv => ?_) hm h
  obtain ⟨_, _, _, -, -, -, hadd⟩ := Model.newRule_eq_ok_iff.1 hv
  obtain ⟨-, rfl⟩ := Model.addRule_eq_ok_iff.1 hadd
  exact hu

theorem named_of_load {text : String} {m : Model Float} (h : load text = .ok m) : Named m := by
  obtain ⟨-, built, set, hbuilt, hset, hrules⟩ := load_eq_ok_iff.1 h
  exact named_of_enterRules
    (named_of_enterInputs (named_of_takeAll ⟨⟨.minimum, rfl⟩, .maximum, rfl⟩ hbuilt) hset) hrules

theorem enterInputs_withOperators (m : Model Float) (norm : Option TNorm) (conorm : Option SNorm)
    (inputs : List (String × Float)) :
    enterInputs (m.withOperators norm conorm) inputs
      = (enterInputs m inputs).map fun u => u.withOperators norm conorm := by
  induction inputs generalizing m with
  | nil => rfl
  | cons input rest ih =>
      unfold enterInputs at ih
      have hassign := (Model.operatorsOnly_withOperators norm conorm).assign_eq m false input.1 input.2
      rw [enterInputs, enterInputs, List.foldlM_cons, List.foldlM_cons, hassign]
      cases m.assign false input.1 input.2 with
      | error e => rfl
      | ok u => exact ih u

theorem enterRules_withOperators {m : Model Float} (hm : Named m) (norm : Option TNorm)
    (conorm : Option SNorm) (rules : List (String × String)) :
    enterRules (m.withOperators norm conorm) rules
      = (enterRules m rules).map fun u => u.withOperators norm conorm := by
  induction rules generalizing m with
  | nil => rfl
  | cons rule rest ih =>
      obtain ⟨⟨n, hn⟩, s, hs⟩ := hm
      have hrule := Model.newRule_withOperators hn hs norm conorm rule.1 rule.2
      unfold enterRules at ih
      rw [enterRules, enterRules, List.foldlM_cons, List.foldlM_cons, hrule]
      cases hu : m.newRule rule.1 rule.2 with
      | error e => rfl
      | ok u =>
          obtain ⟨_, _, _, -, -, -, hadd⟩ := Model.newRule_eq_ok_iff.1 hu
          obtain ⟨-, rfl⟩ := Model.addRule_eq_ok_iff.1 hadd
          exact ih ⟨⟨n, hn⟩, s, hs⟩

/-- Rules can be entered before or after inputs are set. -/
theorem enterRules_enterInputs_iff {m t : Model Float} {rules : List (String × String)}
    {inputs : List (String × Float)} :
    (∃ u, enterRules m rules = .ok u ∧ enterInputs u inputs = .ok t) ↔
      ∃ u, enterInputs m inputs = .ok u ∧ enterRules u rules = .ok t := by
  have hstep (s : Model Float) (rule : String × String) (input : String × Float) (t : Model Float) :
      (∃ u, s.newRule rule.1 rule.2 = .ok u ∧ u.assign false input.1 input.2 = .ok t) ↔
        ∃ u, s.assign false input.1 input.2 = .ok u ∧ u.newRule rule.1 rule.2 = .ok t :=
    Model.newRule_assign_iff
  exact foldlM_exchange hstep rules inputs m t

/-- With other operators and more inputs the last two passes lead to what the same changes make of
the model that they lead to otherwise. -/
theorem passes_withOperators_iff {m t : Model Float} (hm : Named m) (norm : Option TNorm)
    (conorm : Option SNorm) (first inputs : List (String × Float)) (rules : List (String × String)) :
    (∃ set, enterInputs (m.withOperators norm conorm) (first ++ inputs) = .ok set ∧
        enterRules set rules = .ok t) ↔
      ∃ set u, enterInputs m first = .ok set ∧ enterRules set rules = .ok u ∧
        enterInputs (u.withOperators norm conorm) inputs = .ok t := by
  calc
    _ ↔ ∃ set, enterInputs m first = .ok set ∧
          ∃ u, enterInputs (set.withOperators norm conorm) inputs = .ok u ∧
            enterRules u rules = .ok t := by
      have happend (u : Model Float) :
          enterInputs (m.withOperators norm conorm) (first ++ inputs) = .ok u ↔
            ∃ set, enterInputs m first = .ok set ∧
              enterInputs (set.withOperators norm conorm) inputs = .ok u := by
        have hfirst := enterInputs_withOperators m norm conorm first
        unfold enterInputs at hfirst ⊢
        simp only [foldlM_append_eq_ok_iff, hfirst, map_eq_ok_iff, exists_exists_and_eq_and]
      simp only [happend]
      constructor
      · rintro ⟨u, ⟨set, hset, hu⟩, ht⟩
        exact ⟨set, hset, u, hu, ht⟩
      · rintro ⟨set, hset, u, hu, ht⟩
        exact ⟨u, ⟨set, hset, hu⟩, ht⟩
    _ ↔ _ := by
      refine exists_congr fun set => ?_
      rw [exists_and_left, and_congr_right_iff]
      intro hset
      rw [← enterRules_enterInputs_iff,
        enterRules_withOperators (named_of_enterInputs hm hset) norm conorm]
      simp only [map_eq_ok_iff, exists_exists_and_eq_and]

/-- Choosing the one operator and then the other changes both. -/
theorem setEngine_setEngine_iff {m t : Model α} {tnorm snorm : Option String} :
    (∃ u, m.setEngine tnorm none = .ok u ∧ u.setEngine none snorm = .ok t) ↔
      ∃ norm conorm, tnorm.mapM TNorm.named = (.ok norm : Except (ModelError α) _) ∧
        snorm.mapM SNorm.named = (.ok conorm : Except (ModelError α) _) ∧
        t = m.withOperators norm conorm := by
  simp only [Model.setEngine_eq_ok_iff, Option.mapM_none, pure_eq_ok_iff]
  constructor
  · rintro ⟨u, ⟨norm, _, hnorm, rfl, rfl⟩, _, conorm, rfl, hconorm, rfl⟩
    exact ⟨norm, conorm, hnorm, hconorm, Model.withOperators_withOperators ..⟩
  · rintro ⟨norm, conorm, hnorm, hconorm, rfl⟩
    exact ⟨_, ⟨norm, none, hnorm, rfl, rfl⟩, none, conorm, rfl, hconorm,
      (Model.withOperators_withOperators ..).symm⟩

/-- **Choices and inputs behind the directives of a model are operations on the model.** -/
theorem describe_append_overrides_iff {directives : List Directive} {tnorm snorm : Option String}
    {inputs : List (String × Float)} {m : Model Float} :
    Describe (directives ++ overrides tnorm snorm inputs) m ↔
      ∃ t v, Describe directives t ∧
        (∃ u, t.setEngine tnorm none = .ok u ∧ u.setEngine none snorm = .ok v) ∧
        enterInputs v inputs = .ok m := by
  have hnamed {built : Model Float} (h : takeAll .initial directives = .ok built) : Named built :=
    named_of_takeAll ⟨⟨.minimum, rfl⟩, .maximum, rfl⟩ h
  have hbuilt (t : Model Float) :
      takeAll .initial (directives ++ overrides tnorm snorm inputs) = .ok t ↔
        ∃ built, takeAll .initial directives = .ok built ∧
          takeAll built (overrides tnorm snorm inputs) = .ok t :=
    foldlM_append_eq_ok_iff
  simp only [Describe, inputsOf_append_overrides, rulesOf_append_overrides, hbuilt,
    takeAll_overrides_eq_ok_iff, setEngine_setEngine_iff]
  constructor
  · rintro ⟨_, set, ⟨built, hbuilt, norm, conorm, hnorm, hconorm, rfl⟩, hset, hm⟩
    obtain ⟨set, t, hset, ht, hm⟩ :=
      (passes_withOperators_iff (hnamed hbuilt) ..).1 ⟨set, hset, hm⟩
    exact ⟨t, _, ⟨built, set, hbuilt, hset, ht⟩, ⟨norm, conorm, hnorm, hconorm, rfl⟩, hm⟩
  · rintro ⟨t, _, ⟨built, set, hbuilt, hset, ht⟩, ⟨norm, conorm, hnorm, hconorm, rfl⟩, hm⟩
    obtain ⟨set, hset, hm⟩ :=
      (passes_withOperators_iff (hnamed hbuilt) ..).2 ⟨set, t, hset, ht, hm⟩
    exact ⟨_, set, ⟨built, hbuilt, norm, conorm, hnorm, hconorm, rfl⟩, hset, hm⟩

end ModelFile

end FuzzyLogic
