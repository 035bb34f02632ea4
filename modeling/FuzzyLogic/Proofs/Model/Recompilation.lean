import FuzzyLogic.Proofs.Model.Session
import FuzzyLogic.Proofs.Rule.Compilation
import FuzzyLogic.Proofs.Rule.Scope

set_option autoImplicit false

/-! # Compiling a rule again

As long as no variable and no label is taken away, every name goes on to mean what it meant: new
names are added, but a name in use is refused. So a rule that was compiled once can be compiled
again at any later time, and it will be the same rule. -/

namespace FuzzyLogic

variable {α : Type}

namespace Model

variable {m : Model α}

/-! ## Names that stay -/

theorem extends_replace {ref : VariableRef} {v w : LinguisticVariable α}
    (hv : m.deref? ref = some v)
    (hw : ∀ name l, v.labels.get? name = some l → w.labels.get? name = some l) :
    m.scope.Extends (m.replace ref w).scope where
  lookup h := h
  labelOf {other name l} h := by
    change (m.deref? other).bind _ = _ at h
    change ((m.replace ref w).deref? other).bind _ = _
    obtain ⟨hother, hw'⟩ | hsame := deref?_replace_cases hv w other
    · rw [hother] at h
      rw [hw']
      exact hw name l h
    · rwa [hsame]

/-- A change that takes no names away adds names at most. -/
theorem extends_of_change [Scalar α] {known : Rule α → Prop} {m' : Model α}
    (h : Change False known m m') : m.scope.Extends m'.scope := by
  cases h with
  | @makeVariable name lower upper v hv =>
      refine ⟨id, fun {ref label l} hl => ?_⟩
      change (deref? _ ref).bind _ = _
      obtain ⟨u, hu, hl⟩ := Option.bind_eq_some_iff.1 hl
      rw [deref?_push, if_neg (Nat.ne_of_lt (lt_size_of_deref? hu)), hu]
      exact hl
  | enterVariable hv hfree => exact ⟨fun hname => Registry.get?_insert_of_get? hfree hname _, id⟩
  | removeVariable hremoving => exact hremoving.elim
  | clearVariables hremoving => exact hremoving.elim
  | clearLabels hremoving => exact hremoving.elim
  | @addLabel ref v w l hv hw labelCount =>
      obtain ⟨hfree, rfl⟩ := LinguisticVariable.withLabel_eq_ok_iff.1 hw
      have hextends := extends_replace (w := { v with labels := v.labels.insert l.name l }) hv
        fun name other hother => Registry.get?_insert_of_get? hfree hother l
      exact ⟨hextends.lookup, hextends.labelOf⟩
  | setInput hv hx => exact extends_replace hv fun name l hl => hl
  | _ => exact ⟨id, id⟩

end Model

/-! ## Sessions that take nothing away -/

/-- **A rule that was compiled earlier in a session can be compiled again, and to the same**, unless
an operation took names of variables or labels away. The stored rule and the new one fire alike when
they are bound to the same operators. -/
theorem Session.compile_again [Scalar α] {start m : Model α} {past : List (Model α)}
    (h : Session (fun o => ¬ o.Removes) start past m) {r : Rule α} (hr : Known (m :: past) r)
    (name : String) (norm : Binding TNorm α) (conorm : Binding SNorm α) :
    ∃ r', m.compile name r.text norm conorm = .ok r' ∧ r'.program = r.program ∧
      r'.output = r.output ∧ m.strength r' = m.strength { r with norm, conorm } := by
  obtain ⟨u, hu, hcompiled⟩ := hr
  have hextends : u.scope.Extends m.scope := by
    refine h.related (R := fun u v => u.scope.Extends v.scope) ?_ ?_ Model.extends_of_change
      (fun o ho => ho) u hu
    · exact fun u => ⟨id, id⟩
    · exact fun h h' => ⟨h'.lookup ∘ h.lookup, h'.labelOf ∘ h.labelOf⟩
  exact ⟨_, Model.compile_eq_ok_iff.2 ⟨_, hextends.compile hcompiled, rfl⟩, rfl, rfl, rfl⟩

/-- The boiler later on: one input has changed, a variable of a name in use was refused, and there
is a new variable. -/
def Model.laterBoiler : Model Float :=
  Operation.performAll boiler
    [.setInput ⟨0, "Heat"⟩ 70, .addVariable "Heat" 0 1, .addVariable "Steam" 0 1]

/-- A rule that was compiled for the boiler. -/
def Model.boilerRule : Rule Float :=
  { name := "R", text := "if Heat is high THEN Flow is low", program := [.operand boilerHot]
    output := boilerDry, norm := .stock .minimum, conorm := .stock .maximum }

theorem Session.compile_again_boiler :
    ∃ r', Model.laterBoiler.compile "S" "if Heat is high THEN Flow is low" (.stock .product)
        (.stock .maximum) = .ok r' ∧ r'.program = [.operand Model.boilerHot] ∧
      r'.output = Model.boilerDry ∧
      Model.laterBoiler.strength r'
        = Model.laterBoiler.strength { Model.boilerRule with norm := .stock .product } := by
  have hsession : Session (fun o : Operation Float => ¬ o.Removes) Model.boiler
      [_, _, Model.boiler] Model.laterBoiler :=
    .step (.step (.step .start (.setInput ⟨0, "Heat"⟩ 70) id trivial)
      (.addVariable "Heat" 0 1) id trivial) (.addVariable "Steam" 0 1) id trivial
  have hcompiled : Model.boiler.Compiles Model.boilerRule := rfl
  exact hsession.compile_again (r := Model.boilerRule) ⟨Model.boiler, by simp, hcompiled⟩ "S"
    (.stock .product) (.stock .maximum)

end FuzzyLogic
