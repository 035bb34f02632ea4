import FuzzyLogic.Proofs.Evaluation
import FuzzyLogic.Proofs.Success

set_option autoImplicit false

/-! # Values that are there

The operators that a rule can be bound to have a value at every pair of scalars: the quotients of the
Hamacher pair are guarded. So a program has a value wherever its operands have, and it has the same
value when its operands are replaced by theirs. -/

namespace FuzzyLogic

/-! ## Operators -/

section

variable {α : Type} [Scalar α]

open Scalar

/-- A quotient that stands behind a test of its divisor. -/
theorem exists_guarded_quotient (x d z : α) :
    ∃ y, (if d == 0 then .ok z else divide x d : Except Fault α) = .ok y := by
  split
  · exact ⟨z, rfl⟩
  · next hd => exact ⟨x / d, if_neg hd⟩

theorem TNorm.exists_apply (n : TNorm) (x y : α) : ∃ z, n.apply x y = .ok z := by
  cases n with
  | hamacher => exact exists_guarded_quotient _ _ 0
  | _ => exact ⟨_, rfl⟩

theorem SNorm.exists_apply (n : SNorm) (x y : α) : ∃ z, n.apply x y = .ok z := by
  cases n with
  | hamacher => exact exists_guarded_quotient _ _ 1
  | _ => exact ⟨_, rfl⟩

theorem Binding.exists_applyNorm (b : Binding TNorm α) (x y : α) :
    ∃ z, b.applyNorm x y = .ok z := by
  cases b with
  | stock n => exact n.exists_apply x y
  | custom f => exact ⟨f x y, rfl⟩

theorem Binding.exists_applyConorm (b : Binding SNorm α) (x y : α) :
    ∃ z, b.applyConorm x y = .ok z := by
  cases b with
  | stock n => exact n.exists_apply x y
  | custom f => exact ⟨f x y, rfl⟩

theorem Rule.exists_apply (r : Rule α) (o : Operator) (x y : α) :
    ∃ z, r.connectives.apply o x y = .ok z := by
  cases o with
  | and => exact r.norm.exists_applyNorm x y
  | or => exact r.conorm.exists_applyConorm x y

end

/-! ## Trees -/

theorem Tree.exists_value {α β : Type} {c : Connectives α} {leafValue : β → Except Fault α}
    (hop : ∀ o x y, ∃ z, c.apply o x y = .ok z) {t : Tree β}
    (hleaf : ∀ b ∈ t.leaves, ∃ x, leafValue b = .ok x) : ∃ x, t.value c leafValue = .ok x := by
  induction t with
  | leaf b => exact hleaf b List.mem_cons_self
  | node o left right ihl ihr =>
      obtain ⟨x, hx⟩ := ihl fun b hb => hleaf b (List.mem_append_left _ hb)
      obtain ⟨y, hy⟩ := ihr fun b hb => hleaf b (List.mem_append_right _ hb)
      obtain ⟨z, hz⟩ := hop o x y
      refine ⟨z, ?_⟩
      rw [Tree.value, hx, hy]
      exact hz

/-! ## Operands replaced by values -/

namespace Program

variable {α β γ : Type}

/-- The program with the given things in place of its operands, in order, if there are as many. -/
def refill? : Program β → List γ → Option (Program γ)
  | [], [] => some []
  | [], _ :: _ => none
  | .operator o :: rest, xs => (refill? rest xs).map (.operator o :: ·)
  | .operand _ :: _, [] => none
  | .operand _ :: rest, x :: xs => (refill? rest xs).map (.operand x :: ·)

/-- A program runs as before when its operands are replaced by their values. -/
theorem exists_refill? {c : Connectives α} {value : β → Except Fault α} {program : Program β}
    {xs : List α} (h : program.operands.map value = xs.map .ok) :
    ∃ p, program.refill? xs = some p ∧ ∀ stack, p.run c .ok stack = program.run c value stack := by
  induction program generalizing xs with
  | nil =>
      obtain rfl : xs = [] := List.map_eq_nil_iff.1 h.symm
      exact ⟨[], rfl, fun stack => rfl⟩
  | cons i rest ih =>
      cases i with
      | operator o =>
          obtain ⟨p, hp, hrun⟩ := ih h
          refine ⟨.operator o :: p, by rw [refill?, hp, Option.map_some], fun stack => ?_⟩
          rw [run, run, List.foldlM_cons, List.foldlM_cons]
          exact bind_congr hrun
      | operand b =>
          cases xs with
          | nil => exact absurd h (by simp [operands])
          | cons x xs =>
              obtain ⟨hb, hrest⟩ := List.cons.inj h
              obtain ⟨p, hp, hrun⟩ := ih hrest
              refine ⟨.operand x :: p, by rw [refill?, hp, Option.map_some], fun stack => ?_⟩
              rw [run, run, List.foldlM_cons, List.foldlM_cons, step, step, hb]
              exact bind_congr hrun

theorem exists_refill?_evaluate {c : Connectives α} {value : β → Except Fault α}
    {program : Program β} {xs : List α} (h : program.operands.map value = xs.map .ok) :
    ∃ p, program.refill? xs = some p ∧ p.evaluate c .ok = program.evaluate c value := by
  obtain ⟨p, hp, hrun⟩ := exists_refill? (c := c) h
  exact ⟨p, hp, by rw [evaluate, evaluate, hrun]⟩

end Program

end FuzzyLogic
