import FuzzyLogic.Model.Report
import FuzzyLogic.Proofs.Model.Inputs

set_option autoImplicit false

/-! # Operations step by step

`perform` takes an operation as a whole: either it is done or the model is the old one. A program
that works on the model in place does one step after the other, and what it has written before an
exception stays written. Here the operations are spelled out this way, with each reading, check and
writing in its place, and it is shown that they end as `perform` says. So an operation that fails
leaves nothing behind. -/

namespace FuzzyLogic

variable {α β : Type}

/-- Work on a model in place. An exception does not take back what was written before it. -/
abbrev Work (α β : Type) : Type :=
  EStateM (ModelError α) (Model α) β

namespace Work

open Operation (attempt)

/-! ## Steps -/

/-- A result that may be an exception. -/
def ofResult : Except (ModelError α) β → Work α β
  | .ok b => pure b
  | .error e => throw e

/-- Reads something off the model. -/
def read (f : Model α → Except (ModelError α) β) : Work α β := do
  ofResult (f (← get))

/-- Goes on only if the condition holds. -/
def check (condition : Bool) (e : ModelError α) : Work α Unit :=
  if condition then pure () else throw e

/-- The variable that a reference points to. -/
def owner (ref : VariableRef) : Work α (LinguisticVariable α) :=
  read fun m => match m.deref? ref with
    | some v => .ok v
    | none => .error (.fault .strayClause)

/-- Writes a variable in its place. -/
def write (ref : VariableRef) (v : LinguisticVariable α) : Work α Unit :=
  modify (·.replace ref v)

/-- Takes something out of the model. Only then it is an exception if it was not there. -/
def takeOut (isThere : Model α → Bool) (without : Model α → Model α) (e : ModelError α) :
    Work α Unit := do
  let m ← get
  modify without
  check (isThere m) e

/-- Does something with what is given. -/
def whenSome {γ : Type} (x : Option γ) (f : γ → Work α Unit) : Work α Unit :=
  match x with
  | some c => f c
  | none => pure ()

/-! ## Variables -/

section

variable [Scalar α]

def addVariable (name : String) (lower upper : α) : Work α Unit := do
  let v ← ofResult (LinguisticVariable.make name lower upper)
  let m ← get
  check (!m.database.contains name) (.duplicateVariable name)
  modify fun m => { m with pool := m.pool.push v }
  modify fun u => { u with database := u.database.insert name ⟨m.pool.size, name⟩ }

def makeVariable (name : String) (lower upper : α) : Work α Unit := do
  let v ← ofResult (LinguisticVariable.make name lower upper)
  modify fun m => { m with pool := m.pool.push v }

def enterVariable (ref : VariableRef) : Work α Unit := do
  let v ← owner ref
  let m ← get
  check (!m.database.contains v.name) (.duplicateVariable v.name)
  modify fun m => { m with database := m.database.insert v.name ⟨ref.id, v.name⟩ }

def removeVariable (name : String) : Work α Unit :=
  takeOut (·.database.contains name) (fun m => { m with database := m.database.erase name })
    (.unknownVariable name)

def enterLabel (ref : VariableRef) (l : Label α) : Work α Unit := do
  let v ← owner ref
  check (!v.labels.contains l.name) (.duplicateLabel l.name v.name)
  write ref { v with labels := v.labels.insert l.name l }

def addLabel (ref : VariableRef) (label : String) (function : MembershipFunction α) :
    Work α Unit := do
  let m ← get
  enterLabel ref { id := m.labelCount, name := label, function }
  modify fun u => { u with labelCount := m.labelCount + 1 }

def addShapedLabel (ref : VariableRef) (label shape : String) (params : List (Except String α)) :
    Work α Unit := do
  let function ← ofResult ((MembershipFunction.make shape params).mapError ModelError.shape)
  addLabel ref label function

def clearLabels (ref : VariableRef) : Work α Unit := do
  let v ← owner ref
  write ref v.withoutLabels

def setInput (ref : VariableRef) (x : α) : Work α Unit := do
  let v ← owner ref
  check (v.admits x) (.inputOutside x v.name v.lower v.upper)
  write ref { v with input := x }

def setInputs (clamp : Bool) (inputs : List (String × α)) : Work α Unit :=
  inputs.forM fun (name, x) => do
    let (ref, v) ← read (·.find name)
    setInput ref (if clamp then v.clamp x else x)

/-! ## Rules -/

def addRule (r : Rule α) : Work α Unit := do
  let m ← get
  check (!m.rules.contains r.name) (.duplicateRule r.name)
  modify fun m => { m with rules := m.rules.insert r.name r }

def newRule (name text : String) : Work α Unit := do
  let m ← get
  let norm ← ofResult (TNorm.named m.tnorm)
  let conorm ← ofResult (SNorm.named m.snorm)
  let r ← read (·.compile name text (.stock norm) (.stock conorm))
  addRule r

def addBoundRule (name text : String) (norm : Binding TNorm α) (conorm : Binding SNorm α) :
    Work α Unit := do
  let r ← read (·.compile name text norm conorm)
  addRule r

def removeRule (name : String) : Work α Unit :=
  takeOut (·.rules.contains name) (fun m => { m with rules := m.rules.erase name })
    (.unknownRule name)

/-- Puts a changed rule in the place of the old one. -/
def rebind (name : String) (f : Rule α → Rule α) : Work α Unit := do
  let r ← read (·.rule name)
  modify fun m => { m with rules := m.rules.insert name (f r) }

/-- Binds a rule to other operators, as far as they are given. -/
def bindRule (norm : Option TNorm) (conorm : Option SNorm) (name : String) : Work α Unit := do
  whenSome norm fun norm => rebind name ({ · with norm := .stock norm })
  whenSome conorm fun conorm => rebind name ({ · with conorm := .stock conorm })

/-- Changes the names that new rules are bound to, as far as they are given. -/
def chooseNames (tnorm snorm : Option String) : Work α Unit := do
  whenSome tnorm fun tnorm => modify ({ · with tnorm := Text.lower tnorm })
  whenSome snorm fun snorm => modify ({ · with snorm := Text.lower snorm })

/-- Both operators are looked up first. Then the rules are bound to them one by one, and at last the
names for new rules are changed. -/
def setEngine (tnorm snorm : Option String) : Work α Unit := do
  let norm ← ofResult (tnorm.mapM TNorm.named)
  let conorm ← ofResult (snorm.mapM SNorm.named)
  let m ← get
  m.rules.names.forM (bindRule norm conorm)
  chooseNames tnorm snorm

/-! ## Reading -/

/-- The strengths of rules, which are looked up first. -/
def firingStrengths (names : Option (List String)) : Work α (Registry α) := do
  let m ← get
  let selected ← match names with
    | none => pure m.rules.objects
    | some names => names.mapM fun name => read (·.rule name)
  let strengths ← selected.mapM fun r => read fun m => do
    let x ← ModelError.lift (m.strength r)
    return (r.name, x)
  return .ofList strengths

end

/-! ## How work ends -/

variable {m : Model α}

/-- The end of work that only reads. -/
def unchanged (m : Model α) : Except (ModelError α) β → EStateM.Result (ModelError α) (Model α) β
  | .ok b => .ok b m
  | .error e => .error e m

/-- The end of work that leaves a model and may have met an exception. -/
def ended (result : Model α × Except (ModelError α) Unit) :
    EStateM.Result (ModelError α) (Model α) Unit :=
  unchanged result.1 result.2

theorem eq_of_unchanged_error {x : Except (ModelError α) β} {e : ModelError α} {u : Model α}
    (h : unchanged m x = .error e u) : u = m := by
  cases x with
  | error e' =>
      cases h
      rfl
  | ok b => cases h

theorem eq_of_attempt_error {x : Except (ModelError α) (Model α)} {e : ModelError α} {u : Model α}
    (h : ended (attempt m x) = .error e u) : u = m := by
  cases x with
  | error e' =>
      cases h
      rfl
  | ok w => cases h

theorem run_ofResult (x : Except (ModelError α) β) : (ofResult x).run m = unchanged m x := by
  cases x <;> rfl

theorem run_read (f : Model α → Except (ModelError α) β) : (read f).run m = unchanged m (f m) :=
  run_ofResult (f m)

/-- Work that goes on with a result is done as a whole if the rest is. -/
theorem run_ofResult_bind {x : Except (ModelError α) β} {k : β → Work α Unit}
    {g : β → Except (ModelError α) (Model α)}
    (h : ∀ b, x = .ok b → (k b).run m = ended (attempt m (g b))) :
    (ofResult x >>= k).run m = ended (attempt m (x >>= g)) := by
  cases x with
  | error e => rfl
  | ok b => exact h b rfl

theorem run_check_bind {condition : Bool} {e : ModelError α} {k : Work α Unit} {u : Model α}
    (h : k.run m = .ok () u) :
    (check condition e >>= fun _ => k).run m
      = ended (attempt m (if condition then .ok u else .error e)) := by
  cases condition with
  | false => rfl
  | true => exact h

theorem run_check_not_bind {condition : Bool} {e : ModelError α} {k : Work α Unit} {u : Model α}
    (h : k.run m = .ok () u) :
    (check (!condition) e >>= fun _ => k).run m
      = ended (attempt m (if condition then .error e else .ok u)) := by
  cases condition with
  | false => exact h
  | true => rfl

/-- What is taken out although it is not there leaves no gap when the exception is met. -/
theorem run_takeOut {isThere : Model α → Bool} {without : Model α → Model α} {e : ModelError α}
    (h : isThere m = false → without m = m) :
    (takeOut isThere without e).run m
      = ended (attempt m (if isThere m then .ok (without m) else .error e)) := by
  change (check (isThere m) e).run (without m) = _
  cases hthere : isThere m with
  | false =>
      rw [h hthere]
      rfl
  | true => rfl

theorem run_owner_bind (ref : VariableRef) (k : LinguisticVariable α → Work α β) :
    (owner ref >>= k).run m = match m.deref? ref with
      | none => .error (.fault .strayClause) m
      | some v => (k v).run m := by
  change (ofResult (match m.deref? ref with
    | some v => .ok v
    | none => .error (.fault .strayClause)) >>= k).run m = _
  cases m.deref? ref <;> rfl

/-- Work on a variable that writes it at the end. -/
theorem run_owner_bind_eq_modify {ref : VariableRef} {k : LinguisticVariable α → Work α Unit}
    {f : LinguisticVariable α → Except (ModelError α) (LinguisticVariable α)}
    (h : ∀ v, (k v).run m = ended (attempt m ((f v).map (m.replace ref)))) :
    (owner ref >>= k).run m = ended (attempt m (m.modify ref f)) := by
  rw [run_owner_bind]
  unfold Model.modify
  cases m.deref? ref with
  | none => rfl
  | some v => exact h v

/-! ## Changes to variables -/

theorem run_addVariable [Scalar α] (name : String) (lower upper : α) :
    (addVariable name lower upper).run m = ended (attempt m (m.addVariable name lower upper)) :=
  run_ofResult_bind fun _ _ => run_check_not_bind rfl

theorem run_makeVariable [Scalar α] (name : String) (lower upper : α) :
    (makeVariable name lower upper).run m = ended (attempt m (m.makeVariable name lower upper)) :=
  run_ofResult_bind fun _ _ => rfl

theorem run_enterVariable (ref : VariableRef) :
    (enterVariable ref).run m = ended (attempt m (m.enterVariable ref)) := by
  refine (run_owner_bind ref _).trans ?_
  unfold Model.enterVariable
  cases m.deref? ref with
  | none => rfl
  | some v => exact run_check_not_bind rfl

theorem run_removeVariable (name : String) :
    (removeVariable name).run m = ended (attempt m (m.removeVariable name)) := by
  refine run_takeOut fun h => ?_
  rw [Registry.erase_eq_self h]

theorem run_enterLabel (ref : VariableRef) (l : Label α) :
    (enterLabel ref l).run m = ended (attempt m (m.enterLabel ref l)) := by
  refine run_owner_bind_eq_modify fun v => ?_
  let w : LinguisticVariable α := { v with labels := v.labels.insert l.name l }
  refine (run_check_not_bind (u := m.replace ref w) ?_).trans ?_
  · rfl
  · unfold LinguisticVariable.withLabel
    split <;> rfl

theorem run_addLabel (ref : VariableRef) (label : String) (function : MembershipFunction α) :
    (addLabel ref label function).run m = ended (attempt m (m.addLabel ref label function)) := by
  have hlabel := run_enterLabel (m := m) ref { id := m.labelCount, name := label, function }
  change (enterLabel ref _ >>= fun _ => modify _).run m = _
  rw [EStateM.run_bind, hlabel]
  change _ = ended (attempt m (m.enterLabel ref _ >>= _))
  cases m.enterLabel ref { id := m.labelCount, name := label, function } <;> rfl

theorem run_addShapedLabel [Scalar α] (ref : VariableRef) (label shape : String)
    (params : List (Except String α)) :
    (addShapedLabel ref label shape params).run m
      = ended (attempt m (m.addShapedLabel ref label shape params)) := by
  refine (run_ofResult_bind fun function _ => run_addLabel ref label function).trans ?_
  unfold Model.addShapedLabel
  cases MembershipFunction.make shape params <;> rfl

theorem run_clearLabels (ref : VariableRef) :
    (clearLabels ref).run m = ended (attempt m (m.clearLabels ref)) :=
  run_owner_bind_eq_modify fun _ => rfl

theorem run_setInput [Scalar α] (ref : VariableRef) (x : α) :
    (setInput ref x).run m = ended (attempt m (m.setInput ref x)) := by
  refine run_owner_bind_eq_modify fun v => ?_
  refine (run_check_bind (u := m.replace ref { v with input := x }) ?_).trans ?_
  · rfl
  · unfold LinguisticVariable.withInput
    split <;> rfl

theorem run_setInputs [Scalar α] (clamp : Bool) (inputs : List (String × α)) :
    (setInputs clamp inputs).run m = ended (m.setInputs clamp inputs) := by
  induction inputs generalizing m with
  | nil => rfl
  | cons input rest ih =>
      obtain ⟨name, x⟩ := input
      let first : Work α Unit := do
        let (ref, v) ← read (·.find name)
        setInput ref (if clamp then v.clamp x else x)
      have hfirst : first.run m = ended (attempt m (m.assign clamp name x)) :=
        run_ofResult_bind fun (ref, v) _ => run_setInput ref _
      change (first >>= fun _ => setInputs clamp rest).run m = _
      rw [EStateM.run_bind, hfirst, Model.setInputs]
      cases m.assign clamp name x with
      | error e => rfl
      | ok u => exact ih

/-! ## Changes to rules -/

theorem run_addRule (r : Rule α) : (addRule r).run m = ended (attempt m (m.addRule r)) :=
  run_check_not_bind rfl

theorem run_addBoundRule [Scalar α] (name text : String) (norm : Binding TNorm α)
    (conorm : Binding SNorm α) :
    (addBoundRule name text norm conorm).run m
      = ended (attempt m (m.addBoundRule name text norm conorm)) :=
  run_ofResult_bind fun r _ => run_addRule r

theorem run_newRule [Scalar α] (name text : String) :
    (newRule name text).run m = ended (attempt m (m.newRule name text)) :=
  run_ofResult_bind fun _ _ => run_ofResult_bind fun _ _ =>
    run_ofResult_bind fun r _ => run_addRule r

theorem run_removeRule (name : String) :
    (removeRule name).run m = ended (attempt m (m.removeRule name)) := by
  refine run_takeOut fun h => ?_
  rw [Registry.erase_eq_self h]

/-- A rule that is there is changed in its place. -/
theorem run_rebind {before after : List (String × Rule α)} {name : String} {r : Rule α}
    (h : name ∉ before.map Prod.fst) (f : Rule α → Rule α) :
    (rebind name f).run { m with rules := ⟨before ++ (name, r) :: after⟩ }
      = .ok () { m with rules := ⟨before ++ (name, f r) :: after⟩ } := by
  have hrule : Model.rule { m with rules := ⟨before ++ (name, r) :: after⟩ } name = .ok r :=
    Model.rule_eq_ok_iff.2 (Registry.get?_append_cons h)
  unfold rebind
  rw [EStateM.run_bind, run_read, hrule]
  change EStateM.Result.ok () { m with rules := Registry.insert _ name (f r) } = _
  rw [Registry.insert_append_cons h]

theorem run_bindRule {before after : List (String × Rule α)} {name : String} {r : Rule α}
    (h : name ∉ before.map Prod.fst) (norm : Option TNorm) (conorm : Option SNorm) :
    (bindRule norm conorm name).run { m with rules := ⟨before ++ (name, r) :: after⟩ }
      = .ok () { m with rules := ⟨before ++ (name, r.withOperators norm conorm) :: after⟩ } := by
  let u (s : Rule α) : Model α := { m with rules := ⟨before ++ (name, s) :: after⟩ }
  have hnorm : (whenSome norm fun norm => rebind name ({ · with norm := .stock norm })).run (u r)
      = .ok () (u (r.withOperators norm none)) := by
    cases norm with
    | none => rfl
    | some norm => exact run_rebind h _
  have hconorm (s : Rule α) : (whenSome conorm fun conorm =>
      rebind name ({ · with conorm := .stock conorm })).run (u s)
        = .ok () (u (s.withOperators none conorm)) := by
    cases conorm with
    | none => rfl
    | some conorm => exact run_rebind h _
  unfold bindRule
  rw [EStateM.run_bind, hnorm]
  exact hconorm _

/-- The rules are bound from the first to the last. -/
theorem run_bindRules (norm : Option TNorm) (conorm : Option SNorm)
    (before after : List (String × Rule α)) (hnodup : ((before ++ after).map Prod.fst).Nodup) :
    ((after.map Prod.fst).forM (bindRule norm conorm)).run { m with rules := ⟨before ++ after⟩ }
      = .ok () { m with
          rules := ⟨before ++ after.map fun e => (e.1, e.2.withOperators norm conorm)⟩ } := by
  induction after generalizing before with
  | nil => rfl
  | cons e after ih =>
      obtain ⟨name, r⟩ := e
      have hname : name ∉ before.map Prod.fst := by
        rw [List.map_append, List.nodup_append] at hnodup
        exact fun hmem => hnodup.2.2 name hmem name List.mem_cons_self rfl
      have hrest := ih (before ++ [(name, r.withOperators norm conorm)]) (by simpa using hnodup)
      rw [List.append_assoc, List.append_assoc] at hrest
      change (bindRule norm conorm name >>= fun _ => _).run _ = _
      rw [EStateM.run_bind, run_bindRule hname]
      exact hrest

/-- The names for new rules are those of the operators that were found. -/
theorem run_chooseNames {tnorm snorm : Option String} {norm : Option TNorm} {conorm : Option SNorm}
    (hnorm : tnorm.mapM TNorm.named = (.ok norm : Except (ModelError α) _))
    (hconorm : snorm.mapM SNorm.named = (.ok conorm : Except (ModelError α) _)) :
    (chooseNames tnorm snorm).run m
      = .ok () { m with
          tnorm := (norm.map TNorm.name).getD m.tnorm
          snorm := (conorm.map SNorm.name).getD m.snorm } := by
  have htnorm (u : Model α) : (whenSome tnorm fun tnorm =>
      modify ({ · with tnorm := Text.lower tnorm })).run u
        = .ok () { u with tnorm := (norm.map TNorm.name).getD u.tnorm } := by
    obtain ⟨rfl, rfl⟩ | ⟨name, n, rfl, hn, rfl⟩ := mapM_eq_ok_iff.1 hnorm
    · rfl
    · rw [Option.map_some, Option.getD_some, TNorm.name_of_ofName? (TNorm.named_eq_ok_iff.1 hn)]
      rfl
  have hsnorm (u : Model α) : (whenSome snorm fun snorm =>
      modify ({ · with snorm := Text.lower snorm })).run u
        = .ok () { u with snorm := (conorm.map SNorm.name).getD u.snorm } := by
    obtain ⟨rfl, rfl⟩ | ⟨name, n, rfl, hn, rfl⟩ := mapM_eq_ok_iff.1 hconorm
    · rfl
    · rw [Option.map_some, Option.getD_some, SNorm.name_of_ofName? (SNorm.named_eq_ok_iff.1 hn)]
      rfl
  unfold chooseNames
  rw [EStateM.run_bind, htnorm]
  exact hsnorm _

/-- As both operators are found before the first rule is bound, nothing was changed if one is not
found. -/
theorem run_setEngine (hm : m.rules.names.Nodup) (tnorm snorm : Option String) :
    (setEngine tnorm snorm).run m = ended (attempt m (m.setEngine tnorm snorm)) := by
  refine run_ofResult_bind fun norm hnorm => run_ofResult_bind fun conorm hconorm => ?_
  have hrules : (m.rules.names.forM (bindRule norm conorm)).run m
      = .ok () { m with rules := m.rules.map (·.withOperators norm conorm) } :=
    run_bindRules norm conorm [] m.rules.entries hm
  change (m.rules.names.forM (bindRule norm conorm) >>= fun _ => chooseNames tnorm snorm).run m = _
  rw [EStateM.run_bind, hrules]
  exact run_chooseNames hnorm hconorm

theorem run_rebindNorm (name : String) (norm : Binding TNorm α) :
    (rebind name ({ · with norm })).run m = ended (attempt m (m.rebindNorm name norm)) :=
  run_ofResult_bind fun _ _ => rfl

theorem run_rebindConorm (name : String) (conorm : Binding SNorm α) :
    (rebind name ({ · with conorm })).run m = ended (attempt m (m.rebindConorm name conorm)) :=
  run_ofResult_bind fun _ _ => rfl

/-! ## Reading -/

theorem run_mapM_read {γ : Type} (f : Model α → γ → Except (ModelError α) β) (l : List γ) :
    (l.mapM fun c => read (f · c)).run m = unchanged m (l.mapM (f m)) := by
  induction l with
  | nil => rfl
  | cons c l ih =>
      rw [List.mapM_cons, List.mapM_cons, EStateM.run_bind, run_read]
      cases f m c with
      | error e => rfl
      | ok b =>
          change (l.mapM (fun c => read (f · c)) >>= fun bs => pure (b :: bs)).run m = _
          rw [EStateM.run_bind, ih]
          cases l.mapM (f m) <;> rfl

theorem run_bind_unchanged {γ : Type} {p : Work α β} {k : β → Work α γ}
    {x : Except (ModelError α) β} {g : β → Except (ModelError α) γ} (hp : p.run m = unchanged m x)
    (hk : ∀ b, (k b).run m = unchanged m (g b)) : (p >>= k).run m = unchanged m (x >>= g) := by
  rw [EStateM.run_bind, hp]
  cases x with
  | error e => rfl
  | ok b => exact hk b

theorem run_firingStrengths [Scalar α] (names : Option (List String)) :
    (firingStrengths names).run m = unchanged m (m.firingStrengths names) := by
  cases names with
  | none => exact run_bind_unchanged (run_mapM_read _ m.rules.objects) fun _ => rfl
  | some names =>
      refine run_bind_unchanged (run_mapM_read _ names) fun rules => ?_
      exact run_bind_unchanged (run_mapM_read _ rules) fun _ => rfl

end Work

/-! ## Operations -/

/-- The steps of an operation. -/
def Operation.steps [Scalar α] : Operation α → Work α Unit
  | addVariable name lower upper => Work.addVariable name lower upper
  | makeVariable name lower upper => Work.makeVariable name lower upper
  | enterVariable ref => Work.enterVariable ref
  | removeVariable name => Work.removeVariable name
  | clearVariables => modify Model.clearVariables
  | addLabel ref label function => Work.addLabel ref label function
  | enterLabel ref l => Work.enterLabel ref l
  | clearLabels ref => Work.clearLabels ref
  | setInput ref x => Work.setInput ref x
  | setInputs clamp inputs => Work.setInputs clamp inputs.entries
  | newRule name text => Work.newRule name text
  | addRule name text norm conorm => Work.addBoundRule name text norm conorm
  | enterRule r => Work.addRule r
  | removeRule name => Work.removeRule name
  | clearRules => modify Model.clearRules
  | setEngine tnorm snorm => Work.setEngine tnorm snorm
  | rebindNorm name norm => Work.rebind name ({ · with norm })
  | rebindConorm name conorm => Work.rebind name ({ · with conorm })

/-- **The steps of an operation come to what the operation does as a whole.** -/
theorem Operation.run_steps [Scalar α] {m : Model α} (hm : m.rules.names.Nodup)
    (o : Operation α) : o.steps.run m = Work.ended (o.perform m) := by
  cases o with
  | addVariable name lower upper => exact Work.run_addVariable name lower upper
  | makeVariable name lower upper => exact Work.run_makeVariable name lower upper
  | enterVariable ref => exact Work.run_enterVariable ref
  | removeVariable name => exact Work.run_removeVariable name
  | clearVariables => rfl
  | addLabel ref label function => exact Work.run_addLabel ref label function
  | enterLabel ref l => exact Work.run_enterLabel ref l
  | clearLabels ref => exact Work.run_clearLabels ref
  | setInput ref x => exact Work.run_setInput ref x
  | setInputs clamp inputs => exact Work.run_setInputs clamp inputs.entries
  | newRule name text => exact Work.run_newRule name text
  | addRule name text norm conorm => exact Work.run_addBoundRule name text norm conorm
  | enterRule r => exact Work.run_addRule r
  | removeRule name => exact Work.run_removeRule name
  | clearRules => rfl
  | setEngine tnorm snorm => exact Work.run_setEngine hm tnorm snorm
  | rebindNorm name norm => exact Work.run_rebindNorm name norm
  | rebindConorm name conorm => exact Work.run_rebindConorm name conorm

/-! ## Calls -/

/-- What can be asked of a model: an operation, a label with a function of the given shape, or
something that is read off. -/
inductive Call (α : Type) where
  | perform (o : Operation α)
  | addShapedLabel (ref : VariableRef) (label shape : String) (params : List (Except String α))
  | find (name : String)
  | rule (name : String)
  | firingStrengths (names : Option (List String))

namespace Call

/-- What is answered if there is no exception. -/
abbrev Answer : Call α → Type
  | perform _ => Unit
  | addShapedLabel _ _ _ _ => Unit
  | find _ => VariableRef × LinguisticVariable α
  | rule _ => Rule α
  | firingStrengths _ => Registry α

variable [Scalar α]

/-- The steps of a call. -/
def steps : (c : Call α) → Work α c.Answer
  | perform o => o.steps
  | addShapedLabel ref label shape params => Work.addShapedLabel ref label shape params
  | find name => Work.read (·.find name)
  | rule name => Work.read (·.rule name)
  | firingStrengths names => Work.firingStrengths names

/-- What a call comes to. -/
def outcome (m : Model α) : (c : Call α) → EStateM.Result (ModelError α) (Model α) c.Answer
  | perform o => Work.ended (o.perform m)
  | addShapedLabel ref label shape params =>
    Work.ended (Operation.attempt m (m.addShapedLabel ref label shape params))
  | find name => Work.unchanged m (m.find name)
  | rule name => Work.unchanged m (m.rule name)
  | firingStrengths names => Work.unchanged m (m.firingStrengths names)

/-- The call is not one for several inputs together. -/
def Single : Call α → Prop
  | perform (.setInputs _ _) => False
  | _ => True

variable {m u : Model α} {e : ModelError α}

theorem run_steps (hm : m.rules.names.Nodup) (c : Call α) : c.steps.run m = c.outcome m := by
  cases c with
  | perform o => exact o.run_steps hm
  | addShapedLabel ref label shape params => exact Work.run_addShapedLabel ref label shape params
  | find name => exact Work.run_read _
  | rule name => exact Work.run_read _
  | firingStrengths names => exact Work.run_firingStrengths names

/-- **A call that fails leaves the model as it was.** -/
theorem eq_of_steps_error (hm : m.rules.names.Nodup) {c : Call α} (hc : c.Single)
    (h : c.steps.run m = .error e u) : u = m := by
  rw [run_steps hm] at h
  cases c with
  | perform o =>
      cases o with
      | clearVariables => cases h
      | clearRules => cases h
      | setInputs clamp inputs => exact hc.elim
      | _ => exact Work.eq_of_attempt_error h
  | addShapedLabel ref label shape params => exact Work.eq_of_attempt_error h
  | find name => exact Work.eq_of_unchanged_error h
  | rule name => exact Work.eq_of_unchanged_error h
  | firingStrengths names => exact Work.eq_of_unchanged_error h

end Call

/-! ## Sessions -/

variable {allowed : Operation Float → Prop} {start m : Model Float} {past : List (Model Float)}

/-- No call leaves a part of its work behind, at whatever step it fails. -/
structure Model.Whole [Scalar α] (m : Model α) : Prop where
  /-- The steps do what the call does as a whole. -/
  outcome : ∀ c : Call α, c.steps.run m = c.outcome m
  unchanged : ∀ (c : Call α) e u, c.Single → c.steps.run m = .error e u → u = m
  /-- No operator is changed if one of the two is not known. -/
  setEngine : ∀ tnorm snorm, TNorm.ofName? tnorm = none ∨ SNorm.ofName? snorm = none →
    ∃ e, (Operation.setEngine (some tnorm) (some snorm)).steps.run m = .error e m
  /-- A text that is no rule leaves nothing behind, and neither does a rule of a name in use. -/
  newRule : ∀ name text, (∃ e, Rule.compile m.scope text = .error e) ∨
    m.rules.contains name = true → ∃ e, (Operation.newRule name text).steps.run m = .error e m
  addRule : ∀ name text norm conorm, (∃ e, Rule.compile m.scope text = .error e) ∨
    m.rules.contains name = true →
      ∃ e, (Operation.addRule name text norm conorm).steps.run m = .error e m
  enterRule : ∀ r : Rule α, m.rules.contains r.name = true →
    (Operation.enterRule r).steps.run m = .error (.duplicateRule r.name) m

/-- An operation that cannot succeed fails and changes nothing. -/
theorem Operation.exists_steps_error [Scalar α] {m : Model α} (hm : m.rules.names.Nodup)
    {o : Operation α} {x : Except (ModelError α) (Model α)} (ho : o.perform m = attempt m x)
    (hx : ∀ u, x ≠ .ok u) : ∃ e, o.steps.run m = .error e m := by
  rw [run_steps hm, ho]
  cases x with
  | error e => exact ⟨e, rfl⟩
  | ok u => exact absurd rfl (hx u)

theorem Model.not_enters [Scalar α] {m u : Model α} {name text : String} {norm : Binding TNorm α}
    {conorm : Binding SNorm α} {r : Rule α}
    (h : (∃ e, Rule.compile m.scope text = .error e) ∨ m.rules.contains name = true)
    (hr : m.compile name text norm conorm = .ok r) (hadd : m.addRule r = .ok u) : False := by
  obtain ⟨c, hc, rfl⟩ := compile_eq_ok_iff.1 hr
  obtain ⟨hfree, -⟩ := addRule_eq_ok_iff.1 hadd
  obtain ⟨e, he⟩ | hused := h
  · cases he.symm.trans hc
  · exact absurd (hfree.symm.trans hused) (by decide)

theorem Model.whole_of_nodup [Scalar α] {m : Model α} (hm : m.rules.names.Nodup) : m.Whole where
  outcome := Call.run_steps hm
  unchanged c e u hc h := Call.eq_of_steps_error hm hc h
  setEngine tnorm snorm h := by
    refine Operation.exists_steps_error hm rfl fun u hu => ?_
    obtain ⟨norm, conorm, hnorm, hconorm, -⟩ := setEngine_eq_ok_iff.1 hu
    obtain ⟨n, hn⟩ := exists_of_mapM_some_eq_ok hnorm
    obtain ⟨s, hs⟩ := exists_of_mapM_some_eq_ok hconorm
    rw [TNorm.named_eq_ok_iff] at hn
    rw [SNorm.named_eq_ok_iff] at hs
    obtain hnone | hnone := h
    · cases hnone.symm.trans hn
    · cases hnone.symm.trans hs
  newRule name text h := by
    refine Operation.exists_steps_error hm rfl fun u hu => ?_
    obtain ⟨norm, conorm, r, -, -, hr, hadd⟩ := newRule_eq_ok_iff.1 hu
    exact not_enters h hr hadd
  addRule name text norm conorm h := by
    refine Operation.exists_steps_error hm rfl fun u hu => ?_
    obtain ⟨r, hr, hadd⟩ := addBoundRule_eq_ok_iff.1 hu
    exact not_enters h hr hadd
  enterRule r h := by
    rw [Operation.run_steps hm]
    change Work.ended (Operation.attempt m (m.addRule r)) = _
    rw [Model.addRule, if_pos h]
    rfl

/-- **Whatever a model went through, a call that fails leaves it as it was.** -/
theorem Session.failed_calls (hstart : start.Fresh) (h : Session allowed start past m) : m.Whole :=
  Model.whole_of_nodup (all_sound hstart h m List.mem_cons_self).rules.nodup

theorem Session.failed_calls_gauges :
    Model.gauges.Whole ∧ Model.gauges.rules.names = ["R"] ∧
      (∃ e, (Operation.setEngine (some "prod") (some "plus")).steps.run Model.gauges
        = .error e Model.gauges) ∧
      ∃ e, (Operation.newRule "R" "IF Heat is high THEN Heat is high").steps.run Model.gauges
        = .error e Model.gauges := by
  obtain ⟨past, hsession⟩ := Model.session_gauges
  have hwhole := hsession.failed_calls (.empty "min" "max")
  exact ⟨hwhole, by decide +kernel, hwhole.setEngine "prod" "plus" (.inr (by decide)),
    hwhole.newRule "R" _ (.inr (by decide +kernel))⟩

end FuzzyLogic
