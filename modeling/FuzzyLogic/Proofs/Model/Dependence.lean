import FuzzyLogic.Proofs.Evaluation
import FuzzyLogic.Proofs.Model.Run
import FuzzyLogic.Proofs.Model.Session
import FuzzyLogic.Proofs.ModelFile.Loaded
import FuzzyLogic.Proofs.Rule.Scope

set_option autoImplicit false

/-! # What a rule depends on

A rule refers to the variables and labels that its names meant when it was compiled. So its strength
is a matter of its operators and of the inputs of these variables. An operation can change the input
of a variable only if it is about this variable, and operations that go by names are not about a
variable that no name stands for any more. -/

namespace FuzzyLogic

variable {α : Type}

/-! ## Inputs -/

namespace Model

/-- The input of the variable that a reference points to. -/
def input? (m : Model α) (ref : VariableRef) : Option α :=
  (m.deref? ref).map LinguisticVariable.input

theorem degree_eq_of_input? [Scalar α] {m m' : Model α} {c : ModelClause α}
    (h : m'.input? c.subject = m.input? c.subject) : m'.degree c = m.degree c := by
  unfold degree
  cases hv : m.deref? c.subject with
  | none =>
      rw [input?, input?, hv, Option.map_none, Option.map_eq_none_iff] at h
      rw [h]
  | some v =>
      rw [input?, input?, hv, Option.map_some] at h
      obtain ⟨v', hv', hinput⟩ := Option.map_eq_some_iff.1 h
      simp only [hv', hinput]

theorem input?_replace {m : Model α} {other : VariableRef} {v w : LinguisticVariable α}
    (hv : m.deref? other = some v) (hinput : w.input = v.input) (ref : VariableRef) :
    (m.replace other w).input? ref = m.input? ref := by
  unfold input?
  obtain ⟨hold, hnew⟩ | hsame := deref?_replace_cases hv w ref
  · rw [hold, hnew, Option.map_some, Option.map_some, hinput]
  · rw [hsame]

end Model

/-! ## Operations and variables -/

namespace Operation

open Model

variable {m : Model α} {ref : VariableRef} {o : Operation α}

/-- References to one variable are the same to an operation, whatever else the model is like. -/
theorem targets_congr {u : Model α} {other : VariableRef} (hdatabase : u.database = m.database)
    (hid : other.id = ref.id) (h : o.Targets u other) : o.Targets m ref := by
  cases o with
  | addLabel _ _ _ | enterLabel _ _ | clearLabels _ | setInput _ _ => exact h.trans hid
  | setInputs clamp inputs =>
      obtain ⟨name, hname, found, hfound, hfoundid⟩ := h
      exact ⟨name, hname, found, hdatabase ▸ hfound, hfoundid.trans hid⟩
  | _ => exact h

theorem setsInput_congr {u : Model α} {other : VariableRef} (hdatabase : u.database = m.database)
    (hid : other.id = ref.id) (h : o.SetsInput u other) : o.SetsInput m ref := by
  cases o with
  | setInput found x => exact targets_congr (o := setInput found x) hdatabase hid h
  | setInputs clamp inputs => exact targets_congr (o := setInputs clamp inputs) hdatabase hid h
  | _ => exact h

theorem targets_of_setsInput (h : o.SetsInput m ref) : o.Targets m ref := by
  cases o with
  | setInput _ _ | setInputs _ _ => exact h
  | _ => exact h.elim

variable [Scalar α]

/-- A variable that an operation is not about stays as it is. -/
theorem deref?_perform {v : LinguisticVariable α} (hv : m.deref? ref = some v)
    (h : ¬ o.Targets m ref) : (o.perform m).1.deref? ref = some v := by
  by_cases hrules : o.OnRules
  · rw [deref?, (variables_perform hrules m).1]
    exact hv
  refine variables_induction hrules (fun u => u.deref? ref = some v)
    (fun u u' hdatabase hu heffect => ?_) hv
  have hpush (w : LinguisticVariable α) : (u.pool.push w)[ref.id]? = some v := by
    rwa [Array.getElem?_push, if_neg (Nat.ne_of_lt (lt_size_of_deref? hu))]
  have hreplace {other : VariableRef} (hother : o.Targets u other) (w : LinguisticVariable α) :
      (u.replace other w).deref? ref = some v :=
    (deref?_replace_of_ne (fun hid => h (targets_congr hdatabase hid hother)) w).trans hu
  cases heffect with
  | made w => exact hpush w
  | added name w => exact hpush w
  | @labelled other _ w hother _ _ _ => exact hreplace hother w
  | set hsets _ x => exact hreplace (targets_of_setsInput hsets) _
  | _ => exact hu

/-- An operation that does not set the input of a variable leaves it as it is. -/
theorem input?_perform {x : α} (hx : m.input? ref = some x) (h : ¬ o.SetsInput m ref) :
    (o.perform m).1.input? ref = some x := by
  by_cases hrules : o.OnRules
  · rw [input?, deref?, (variables_perform hrules m).1]
    exact hx
  refine variables_induction hrules (fun u => u.input? ref = some x)
    (fun u u' hdatabase hu heffect => ?_) hx
  have hpush (w : LinguisticVariable α) :
      ((u.pool.push w)[ref.id]?).map LinguisticVariable.input = some x := by
    obtain ⟨v, hv, -⟩ := Option.map_eq_some_iff.1 hu
    rwa [Array.getElem?_push, if_neg (Nat.ne_of_lt (lt_size_of_deref? hv))]
  cases heffect with
  | made w => exact hpush w
  | added name w => exact hpush w
  | labelled _ hv hinput _ => exact (input?_replace hv hinput ref).trans hu
  | set hsets _ _ =>
      rw [input?, deref?_replace_of_ne fun hid => h (setsInput_congr hdatabase hid hsets)]
      exact hu
  | _ => exact hu

/-! ## Variables without a name -/

/-- The operation goes by the names of variables: it is about a variable that the database has under
some name. No operation is left out but those that are handed a variable which has no name. -/
def ByName (m : Model α) (ref : VariableRef) : Operation α → Prop
  | enterVariable other => other.id ≠ ref.id
  | addLabel other _ _ => ∃ name, m.database.get? name = some other
  | enterLabel other _ => ∃ name, m.database.get? name = some other
  | clearLabels other => ∃ name, m.database.get? name = some other
  | setInput other _ => ∃ name, m.database.get? name = some other
  | _ => True

end Operation

namespace Model

open Operation

/-- The variable that the reference points to is there, but no name stands for it. -/
structure Detached (m : Model α) (ref : VariableRef) : Prop where
  made : ∃ v, m.deref? ref = some v
  nameless : ∀ other ∈ m.database.objects, other.id ≠ ref.id

namespace Detached

variable {m : Model α} {ref : VariableRef}

theorem id_ne (hm : m.Detached ref) {name : String} {other : VariableRef}
    (h : m.database.get? name = some other) : other.id ≠ ref.id :=
  hm.nameless other (Registry.mem_objects_of_get? h)

theorem not_targets (hm : m.Detached ref) {o : Operation α} (h : o.ByName m ref) :
    ¬ o.Targets m ref := by
  cases o with
  | addLabel _ _ _ | enterLabel _ _ | clearLabels _ | setInput _ _ =>
      obtain ⟨name, hname⟩ := h
      exact hm.id_ne hname
  | setInputs clamp inputs =>
      rintro ⟨name, -, other, hother, hid⟩
      exact hm.id_ne hother hid
  | _ => exact id

variable [Scalar α]

/-- Operations that go by names do not find the variable again. -/
theorem perform (hm : m.Detached ref) {o : Operation α} (h : o.ByName m ref) :
    (o.perform m).1.Detached ref := by
  obtain ⟨v, hv⟩ := hm.made
  refine ⟨⟨v, deref?_perform hv (hm.not_targets h)⟩, ?_⟩
  by_cases hrules : o.OnRules
  · rw [(variables_perform hrules m).2]
    exact hm.nameless
  -- A new variable is another one as long as the one without a name is there.
  refine (variables_induction hrules
    (fun u => ref.id < u.pool.size ∧ ∀ other ∈ u.database.objects, other.id ≠ ref.id)
    (fun u u' hdatabase hu heffect => ?_) ⟨lt_size_of_deref? hv, hm.nameless⟩).2
  obtain ⟨hsize, hnameless⟩ := hu
  have hinsert {name : String} {new : VariableRef} (hnew : new.id ≠ ref.id) :
      ∀ other ∈ (u.database.insert name new).objects, other.id ≠ ref.id := by
    intro other hother
    obtain rfl | hother := Registry.mem_objects_insert hother
    · exact hnew
    · exact hnameless other hother
  have hpush (w : LinguisticVariable α) : ref.id < (u.pool.push w).size := by
    rw [Array.size_push]
    exact Nat.lt_succ_of_lt hsize
  cases heffect with
  | made w => exact ⟨hpush w, hnameless⟩
  | added name w => exact ⟨hpush w, hinsert (Nat.ne_of_gt hsize)⟩
  | entered henters name =>
      subst henters
      exact ⟨hsize, hinsert h⟩
  | erased name =>
      exact ⟨hsize, fun other hother => hnameless other (Registry.mem_objects_erase hother)⟩
  | cleared => exact ⟨hsize, fun other hother => absurd hother List.not_mem_nil⟩
  | labelled _ _ _ _ => exact ⟨by simpa [replace] using hsize, hnameless⟩
  | set _ _ _ => exact ⟨by simpa [replace] using hsize, hnameless⟩

end Detached

end Model

/-! ## Runs -/

namespace Operation

open Model

variable [Scalar α] {m : Model α} {ref : VariableRef} {run : List (Operation α)}

theorem input?_performAll (hmade : ∃ v, m.deref? ref = some v)
    (h : Along (fun u o => ¬ o.SetsInput u ref) m run) :
    (performAll m run).input? ref = m.input? ref := by
  obtain ⟨v, hv⟩ := hmade
  have hx : m.input? ref = some v.input := by rw [input?, hv, Option.map_some]
  rw [hx]
  exact h.invariant (fun u => u.input? ref = some v.input)
    (fun _ _ ho hu => input?_perform hu ho) hx

/-- What a variable without a name is like stays so, as far as operations go by names. -/
theorem detached_performAll (hm : m.Detached ref) (h : Along (fun u o => o.ByName u ref) m run) :
    (performAll m run).Detached ref ∧ (performAll m run).deref? ref = m.deref? ref := by
  obtain ⟨v, hv⟩ := hm.made
  rw [hv]
  refine h.invariant (fun u => u.Detached ref ∧ u.deref? ref = some v) ?_ ⟨hm, hv⟩
  rintro u o ho ⟨hu, huv⟩
  exact ⟨hu.perform ho, deref?_perform huv (hu.not_targets ho)⟩

end Operation

/-! ## Rules -/

namespace Model

open Operation

/-- A rule with the same variables at the same inputs has the same strength. -/
theorem strength_eq_of_input? [Scalar α] {m m' : Model α} {r : Rule α}
    (h : ∀ c ∈ r.program.operands, m'.input? c.subject = m.input? c.subject) :
    m'.strength r = m.strength r :=
  Program.evaluate_congr fun c hc => degree_eq_of_input? (h c hc)

theorem detached_removeVariable [Scalar α] {m : Model α} (hm : m.Held) {ref other : VariableRef}
    {name : String} (hother : m.database.get? name = some other) (hid : other.id = ref.id) :
    ((Operation.removeVariable name).perform m).1.Detached ref := by
  have hcontains : m.database.contains name = true := by rw [Registry.contains, hother]; rfl
  obtain ⟨v, hv, hname⟩ := hm _ (Registry.mem_entries_of_get? hother)
  have hv' : m.deref? ref = some v := by rw [deref?, ← hid]; exact hv
  have hperform : (Operation.removeVariable name).perform m
      = ({ m with database := m.database.erase name }, .ok ()) := by
    change attempt m (m.removeVariable name) = _
    rw [removeVariable_eq_ok_iff.2 ⟨hcontains, rfl⟩]
    rfl
  rw [hperform]
  refine ⟨⟨v, hv'⟩, fun left hleft hleftid => ?_⟩
  -- What is left in the database has another name, so it is another variable.
  obtain ⟨e, he, rfl⟩ := List.mem_map.1 hleft
  obtain ⟨hmem, hne⟩ := List.mem_filter.1 he
  obtain ⟨w, hw, hwname⟩ := hm e hmem
  rw [deref?, hleftid] at hw
  obtain rfl := Option.some.inj (hw.symm.trans hv')
  exact absurd (hwname.symm.trans hname) (by simpa using hne)

/-- The rule depends on objects, not on names, whatever run of operations comes next. -/
structure Captures [Scalar α] (m : Model α) (r : Rule α) : Prop where
  /-- The rule under a name stays the same until it is taken away, but for its operators, and these
  stay until the rule is bound to others. -/
  kept : ∀ name run, m.rules.get? name = some r → Along (fun _ o => ¬ o.Drops name) m run →
    ∃ r', (performAll m run).rules.get? name = some r' ∧
      r'.text = r.text ∧ r'.program = r.program ∧ r'.programText = r.programText ∧
      r'.output = r.output ∧
      (Along (fun u o => ¬ (o.Rebinds name ∧ o.Succeeds u)) m run → r' = r)
  /-- The strength is a matter of the inputs of the variables that the clauses refer to. -/
  strength : ∀ run,
    (∀ c ∈ r.program.operands, (performAll m run).input? c.subject = m.input? c.subject) →
    (performAll m run).strength r = m.strength r
  /-- The input of a variable changes only if it is set. -/
  input : ∀ c ∈ r.program.operands, ∀ run, Along (fun u o => ¬ o.SetsInput u c.subject) m run →
    (performAll m run).input? c.subject = m.input? c.subject
  /-- A variable is detached when the name is removed that stands for it, -/
  removed : ∀ c ∈ r.program.operands, ∀ name ref, m.database.get? name = some ref →
    ref.id = c.subject.id → ((Operation.removeVariable name).perform m).1.Detached c.subject
  /-- or when the database is cleared. -/
  cleared : ∀ c ∈ r.program.operands, (Operation.clearVariables.perform m).1.Detached c.subject
  /-- From then on operations that go by names neither find it nor change what it contributes. -/
  detached : ∀ c ∈ r.program.operands, ∀ run, m.Detached c.subject →
    Along (fun u o => o.ByName u c.subject) m run →
    (performAll m run).Detached c.subject ∧ (performAll m run).degree c = m.degree c

theorem captures_of_made [Scalar α] {m : Model α} {r : Rule α} (hm : m.Held)
    (hmade : ∀ c ∈ r.program.operands, ∃ v, m.deref? c.subject = some v) : m.Captures r where
  kept := by
    intro name run hr hdrops
    obtain ⟨norm, conorm, hkept⟩ := exists_rule_performAll hr hdrops
    refine ⟨_, hkept, rfl, rfl, rfl, rfl, fun hrebinds => ?_⟩
    exact Option.some.inj (hkept.symm.trans (get?_rules_performAll hr hdrops hrebinds))
  strength run h := strength_eq_of_input? h
  input c hc run h := input?_performAll (hmade c hc) h
  removed c hc name ref href hid := detached_removeVariable hm href hid
  cleared c hc := ⟨hmade c hc, fun other hother => absurd hother List.not_mem_nil⟩
  detached c hc run hdetached h := by
    obtain ⟨hdetached', hderef⟩ := detached_performAll hdetached h
    refine ⟨hdetached', degree_eq_of_input? ?_⟩
    rw [input?, input?, hderef]

end Model

/-- **A compiled rule depends on the objects that it was compiled with, not on their names.** -/
theorem Session.captures {start m : Model Float} {past : List (Model Float)} (hstart : start.Fresh)
    (h : Session (fun _ => True) start past m) {r : Rule Float}
    (hr : r ∈ m.rules.objects ∨ Known (m :: past) r) : m.Captures r := by
  have hheld : ∀ u ∈ m :: past, u.Held :=
    h.invariant (fun hchange hu => hu.change hchange) (fun _ _ _ => trivial : ∀ o, _ → _ → True)
      hstart.start.held
  have hkeeps : ∀ u ∈ m :: past, u.Keeps m :=
    h.related .refl .trans Model.keeps_of_change (fun _ _ _ => trivial : ∀ o, _ → _ → True)
  have hknown : Known (m :: past) r :=
    hr.elim (h.known_of_mem_rules hstart.start.compiles r) id
  obtain ⟨u, hu, hcompiled⟩ := hknown
  obtain ⟨t, hprogram, hnamed⟩ := Rule.named_of_compile hcompiled
  replace hprogram : r.program = t.postorder := hprogram
  refine Model.captures_of_made (hheld m List.mem_cons_self) fun c hc => ?_
  rw [hprogram, Tree.operands_postorder] at hc
  obtain ⟨subject, label, hnames⟩ := hnamed c (.inr hc)
  obtain ⟨v, hv, -⟩ := hheld u hu _ (Registry.mem_entries_of_get? hnames.lookup_eq)
  obtain ⟨w, hw, -⟩ := hkeeps u hu c.subject v hv
  exact ⟨w, hw⟩

/-- A model with a rule whose only variable was taken out of the database. -/
def Model.chilled : Model Float :=
  Operation.performAll (.empty "min" "max")
    [.addVariable "Heat" 0 90, .addLabel ⟨0, "Heat"⟩ "high" (.rightShoulder 60 80),
      .newRule "R" "IF Heat is high THEN Heat is high", .setInput ⟨0, "Heat"⟩ 70,
      .removeVariable "Heat"]

/-- A new variable of the old name is of no concern to the rule. -/
theorem Session.captures_chilled :
    ∃ r, Model.chilled.rules.get? "R" = some r ∧ Model.chilled.Captures r ∧
      ∀ c ∈ r.program.operands, Model.chilled.Detached c.subject ∧
        (Operation.performAll Model.chilled
          [.addVariable "Heat" 0 90, .setInputs false ⟨[("Heat", 90)]⟩]).degree c
            = Model.chilled.degree c := by
  have hsession : Session (fun _ : Operation Float => True) (.empty "min" "max")
      [_, _, _, _, _] Model.chilled :=
    .step (.step (.step (.step (.step .start
      (.addVariable "Heat" 0 90) trivial trivial)
      (.addLabel ⟨0, "Heat"⟩ "high" (.rightShoulder 60 80)) trivial trivial)
      (.newRule "R" "IF Heat is high THEN Heat is high") trivial trivial)
      (.setInput ⟨0, "Heat"⟩ 70) trivial trivial)
      (.removeVariable "Heat") trivial trivial
  have hsubjects : (Model.chilled.rules.get? "R").map (·.program.operands.map (·.subject))
      = some [⟨0, "Heat"⟩] := by decide +kernel
  obtain ⟨r, hr, hoperands⟩ := Option.map_eq_some_iff.1 hsubjects
  have hcaptures := hsession.captures (.empty "min" "max") (.inl (Registry.mem_objects_of_get? hr))
  refine ⟨r, hr, hcaptures, fun c hc => ?_⟩
  have hsubject : c.subject = ⟨0, "Heat"⟩ := by
    have hmem := List.mem_map_of_mem (f := (·.subject)) hc
    rw [hoperands] at hmem
    exact List.mem_singleton.1 hmem
  have hdetached : Model.chilled.Detached c.subject := by
    rw [hsubject]
    have hmade : (Model.chilled.deref? ⟨0, "Heat"⟩).isSome = true := by decide +kernel
    exact ⟨Option.isSome_iff_exists.1 hmade, by decide +kernel⟩
  have hrun := hcaptures.detached c hc
    [.addVariable "Heat" 0 90, .setInputs false ⟨[("Heat", 90)]⟩] hdetached
    ⟨trivial, trivial, trivial⟩
  exact ⟨hdetached, hrun.2⟩

end FuzzyLogic
