import FuzzyLogic.Model.Basic

set_option autoImplicit false

/-! # Values of trees

The value of a tree is computed with operators and leaves that may meet a fault. Where all of them
have values the value of the tree is a plain fold, and where none of them blames the program for a
fault the tree does not either. Degrees and bound operators are of that kind: what can go wrong in
them is a quotient without a value or a clause that refers to nothing. -/

namespace FuzzyLogic

/-- The faults of a program that does not fit its stack. -/
inductive Fault.Malformed : Fault → Prop
  | underflow (o : Operator) : Malformed (.underflow o)
  | leftover (count : Nat) : Malformed (.leftover count)

/-- A result that is not the fault of a program that does not fit its stack. -/
def WellFormedResult {β : Type} (x : Except Fault β) : Prop :=
  ∀ f, x = .error f → ¬ f.Malformed

namespace WellFormedResult

variable {β γ : Type}

theorem ok (b : β) : WellFormedResult (.ok b) := by
  intro f h
  exact absurd h (by simp)

theorem divisionByZero : WellFormedResult (.error .divisionByZero : Except Fault β) := by
  rintro f ⟨⟩ ⟨⟩

theorem strayClause : WellFormedResult (.error .strayClause : Except Fault β) := by
  rintro f ⟨⟩ ⟨⟩

theorem ite {p : Prop} [Decidable p] {x y : Except Fault β} (hx : WellFormedResult x)
    (hy : WellFormedResult y) : WellFormedResult (if p then x else y) := by
  split
  · exact hx
  · exact hy

theorem bind {x : Except Fault β} {k : β → Except Fault γ} (hx : WellFormedResult x)
    (hk : ∀ b, WellFormedResult (k b)) : WellFormedResult (x >>= k) := by
  cases x with
  | error e =>
      intro f h
      exact hx f (by simpa [Bind.bind, Except.bind] using h)
  | ok b => exact hk b

end WellFormedResult

/-! ## Trees -/

namespace Tree

variable {α β : Type}

/-- The value of the tree where every operator and every leaf has one. -/
def fold (conj disj : α → α → α) (leafValue : β → α) : Tree β → α
  | leaf b => leafValue b
  | node .and left right =>
    conj (left.fold conj disj leafValue) (right.fold conj disj leafValue)
  | node .or left right =>
    disj (left.fold conj disj leafValue) (right.fold conj disj leafValue)

theorem value_eq_fold {c : Connectives α} {leafValue : β → Except Fault α} {conj disj : α → α → α}
    {plain : β → α} (hconj : ∀ x y, c.norm x y = .ok (conj x y))
    (hdisj : ∀ x y, c.conorm x y = .ok (disj x y)) (t : Tree β)
    (hleaf : ∀ b ∈ t.leaves, leafValue b = .ok (plain b)) :
    t.value c leafValue = .ok (t.fold conj disj plain) := by
  induction t with
  | leaf b => exact hleaf b (by simp [leaves])
  | node o left right ihl ihr =>
      have hl := ihl fun b hb => hleaf b (List.mem_append_left _ hb)
      have hr := ihr fun b hb => hleaf b (List.mem_append_right _ hb)
      rw [value, hl, hr]
      cases o with
      | and => exact hconj _ _
      | or => exact hdisj _ _

/-- The tree itself adds no fault to those of its leaves and operators. -/
theorem wellFormed_value {c : Connectives α} {leafValue : β → Except Fault α}
    (hop : ∀ o x y, WellFormedResult (c.apply o x y))
    (hleaf : ∀ b, WellFormedResult (leafValue b)) (t : Tree β) :
    WellFormedResult (t.value c leafValue) := by
  induction t with
  | leaf b => exact hleaf b
  | node o left right ihl ihr => exact ihl.bind fun x => ihr.bind fun y => hop o x y

end Tree

/-! ## Programs -/

namespace Program

variable {α β : Type} {c : Connectives α} {program : Program β} {value value' : β → Except Fault α}

theorem run_congr (h : ∀ b ∈ program.operands, value b = value' b) (stack : List α) :
    program.run c value stack = program.run c value' stack := by
  induction program generalizing stack with
  | nil => rfl
  | cons i rest ih =>
      have hstep : step c value stack i = step c value' stack i := by
        cases i with
        | operand b => rw [step, step, h b List.mem_cons_self]
        | operator o => rfl
      have hrest : ∀ b ∈ operands rest, value b = value' b := by
        intro b hb
        refine h b ?_
        cases i with
        | operand d => exact List.mem_cons_of_mem d hb
        | operator o => exact hb
      rw [run, run, List.foldlM_cons, List.foldlM_cons, hstep]
      exact bind_congr fun stack' => ih hrest stack'

/-- The value of a program depends on the values of its operands only. -/
theorem evaluate_congr (h : ∀ b ∈ program.operands, value b = value' b) :
    program.evaluate c value = program.evaluate c value' := by
  rw [evaluate, evaluate, run_congr h]

end Program

/-! ## Degrees and bound operators -/

section

variable {α : Type} [Scalar α]

theorem Scalar.wellFormed_divide (x y : α) : WellFormedResult (divide x y) :=
  .ite .divisionByZero (.ok _)

theorem TNorm.wellFormed_apply (n : TNorm) (x y : α) : WellFormedResult (n.apply x y) := by
  cases n with
  | hamacher => exact .ite (.ok _) (Scalar.wellFormed_divide _ _)
  | _ => exact .ok _

theorem SNorm.wellFormed_apply (n : SNorm) (x y : α) : WellFormedResult (n.apply x y) := by
  cases n with
  | hamacher => exact .ite (.ok _) (Scalar.wellFormed_divide _ _)
  | _ => exact .ok _

theorem Binding.wellFormed_applyNorm (b : Binding TNorm α) (x y : α) :
    WellFormedResult (b.applyNorm x y) := by
  cases b with
  | stock n => exact n.wellFormed_apply x y
  | custom f => exact .ok _

theorem Binding.wellFormed_applyConorm (b : Binding SNorm α) (x y : α) :
    WellFormedResult (b.applyConorm x y) := by
  cases b with
  | stock n => exact n.wellFormed_apply x y
  | custom f => exact .ok _

theorem Rule.wellFormed_connectives (r : Rule α) (o : Operator) (x y : α) :
    WellFormedResult (r.connectives.apply o x y) := by
  cases o with
  | and => exact r.norm.wellFormed_applyNorm x y
  | or => exact r.conorm.wellFormed_applyConorm x y

theorem MembershipFunction.wellFormed_degree (f : MembershipFunction α) (x : α) :
    WellFormedResult (f.degree x) := by
  have hdivide := fun x y : α => Scalar.wellFormed_divide x y
  cases f with
  | triangle a b c =>
      exact .ite (.ok _) (.ite (.ok _) (.ite (hdivide _ _) (hdivide _ _)))
  | trapezoid a b c d =>
      exact .ite (.ok _) (.ite (.ok _) (.ite (hdivide _ _) (hdivide _ _)))
  | leftShoulder b c => exact .ite (.ok _) (.ite (.ok _) (hdivide _ _))
  | rightShoulder a b => exact .ite (.ok _) (.ite (.ok _) (hdivide _ _))
  | bell center width => exact (hdivide _ _).bind fun z => .ok _

theorem Model.wellFormed_degree (m : Model α) (c : ModelClause α) :
    WellFormedResult (m.degree c) := by
  unfold degree
  split
  · exact (MembershipFunction.wellFormed_degree _ _).bind fun d => .ok _
  · exact .strayClause

end

end FuzzyLogic
