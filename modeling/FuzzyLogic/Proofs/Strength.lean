import FuzzyLogic.Proofs.Norm
import FuzzyLogic.Proofs.WellFormed

set_option autoImplicit false

/-! # Strengths in exact arithmetic

With stock operators a rule fires with a strength in the unit interval, and no less when its clauses
become no less true. Both are carried from the norms to the trees of antecedents by induction, and
from the trees to the programs, since the well-formed programs are those of trees. -/

namespace FuzzyLogic

open Set

/-- The truth functions of a rule that is bound to stock operators. -/
def Connectives.stock {α : Type} [Scalar α] (n : TNorm) (s : SNorm) : Connectives α :=
  { norm := n.apply, conorm := s.apply }

namespace Tree

variable {K β : Type} [Field K] [LinearOrder K] [IsStrictOrderedRing K] {x y : β → K}

theorem fold_mem (n : TNorm) (s : SNorm) {t : Tree β} (h : ∀ b ∈ t.leaves, x b ∈ Icc (0 : K) 1) :
    t.fold n.value s.value x ∈ Icc (0 : K) 1 := by
  induction t with
  | leaf b => exact h b List.mem_cons_self
  | node o left right ihl ihr =>
      have hl := ihl fun b hb => h b (List.mem_append_left _ hb)
      have hr := ihr fun b hb => h b (List.mem_append_right _ hb)
      cases o with
      | and => exact n.value_mem hl hr
      | or => exact s.value_mem hl hr

theorem fold_le_fold (n : TNorm) (s : SNorm) {t : Tree β} (hx : ∀ b ∈ t.leaves, x b ∈ Icc (0 : K) 1)
    (hy : ∀ b ∈ t.leaves, y b ∈ Icc (0 : K) 1) (hle : ∀ b ∈ t.leaves, x b ≤ y b) :
    t.fold n.value s.value x ≤ t.fold n.value s.value y := by
  induction t with
  | leaf b => exact hle b List.mem_cons_self
  | node o left right ihl ihr =>
      simp only [leaves, List.forall_mem_append] at hx hy hle
      have hl := ihl hx.1 hy.1 hle.1
      have hr := ihr hx.2 hy.2 hle.2
      have hlx := fold_mem n s hx.1
      have hly := fold_mem n s hy.1
      have hrx := fold_mem n s hx.2
      have hry := fold_mem n s hy.2
      cases o with
      | and => exact n.value_le_value hlx hly hrx hry hl hr
      | or => exact s.value_le_value hlx hly hrx hry hl hr

variable [Exponential K]

/-- With stock operators a program has a value wherever its operands have. -/
theorem evaluate_stock (n : TNorm) (s : SNorm) {t : Tree β} {degree : β → Except Fault K}
    (h : ∀ b ∈ t.leaves, degree b = .ok (x b)) :
    t.postorder.evaluate (.stock n s) degree = .ok (t.fold n.value s.value x) := by
  rw [evaluate_postorder]
  exact t.value_eq_fold n.apply_eq s.apply_eq h

end Tree

/-! ## Programs -/

namespace Program

variable {K β : Type}

variable [Field K] [LinearOrder K] [IsStrictOrderedRing K] [Exponential K]

/-- **The strength of a rule lies between zero and one and grows with the degrees of its clauses**,
whatever stock operators the rule is bound to. There is no division by zero. -/
theorem strength_mem_and_mono (n : TNorm) (s : SNorm) {program : Program β}
    (hprogram : program.WellFormed) {degree : β → Except Fault K} {x : β → K}
    (h : ∀ b ∈ program.operands, degree b = .ok (x b) ∧ x b ∈ Icc (0 : K) 1) :
    ∃ a ∈ Icc (0 : K) 1, program.evaluate (.stock n s) degree = .ok a ∧
      ∀ (degree' : β → Except Fault K) (y : β → K),
        (∀ b ∈ program.operands, degree' b = .ok (y b) ∧ y b ∈ Icc (0 : K) 1 ∧ x b ≤ y b) →
          ∃ a' ∈ Icc (0 : K) 1, program.evaluate (.stock n s) degree' = .ok a' ∧ a ≤ a' := by
  obtain ⟨t, rfl⟩ := wellFormed_iff.1 hprogram
  rw [Tree.operands_postorder] at h ⊢
  have hx := fun b hb => (h b hb).2
  refine ⟨_, Tree.fold_mem n s hx, Tree.evaluate_stock n s fun b hb => (h b hb).1, ?_⟩
  intro degree' y h'
  have hy := fun b hb => (h' b hb).2.1
  exact ⟨_, Tree.fold_mem n s hy, Tree.evaluate_stock n s fun b hb => (h' b hb).1,
    Tree.fold_le_fold n s hx hy fun b hb => (h' b hb).2.2⟩

/-- Both Hamacher operators at the corner where the quotient has no value, and above it. -/
theorem strength_mem_and_mono_corners :
    letI : Exponential ℚ := ⟨id⟩
    let program : Program ℚ :=
      [.operand 0, .operand 0, .operator .and, .operand 1, .operand 1, .operator .or, .operator .and]
    ∃ a ∈ Icc (0 : ℚ) 1, program.evaluate (.stock .hamacher .hamacher) .ok = .ok a ∧
      ∃ a' ∈ Icc (0 : ℚ) 1,
        program.evaluate (.stock .hamacher .hamacher) (fun b => .ok ((1 + b) / 2)) = .ok a' ∧
          a ≤ a' := by
  let _ : Exponential ℚ := ⟨id⟩
  intro program
  have hunit : ∀ b ∈ program.operands, b ∈ Icc (0 : ℚ) 1 ∧ (1 + b) / 2 ∈ Icc (0 : ℚ) 1 ∧
      b ≤ (1 + b) / 2 := by
    intro b hb
    obtain rfl | rfl : b = 0 ∨ b = 1 := by simpa [program, operands] using hb
    all_goals norm_num
  obtain ⟨a, ha, heval, hmono⟩ := strength_mem_and_mono (x := id) .hamacher .hamacher
    (rfl : program.WellFormed) fun b hb => ⟨rfl, (hunit b hb).1⟩
  exact ⟨a, ha, heval, hmono _ (fun b => (1 + b) / 2) fun b hb => ⟨rfl, (hunit b hb).2⟩⟩

end Program

end FuzzyLogic
