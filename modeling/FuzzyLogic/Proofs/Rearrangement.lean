import FuzzyLogic.Proofs.Strength

set_option autoImplicit false

/-! # Rearranged antecedents

The stock operators are commutative and associative on the unit interval, and each has a neutral
degree: one for AND and zero for OR. So the operands of an operator can be brought into any order
and any grouping, and those of the neutral degree left out. Trees that come from each other in this
way have the same value under every pair of stock operators. -/

namespace FuzzyLogic.Tree

open Set

section

variable {K β : Type} [Field K] [LinearOrder K] (n : TNorm) (s : SNorm) (x : β → K)

/-- Two trees of which one comes from the other when operands of equal operators are exchanged and
regrouped, and operands are left out that are completely true in an AND or completely false in an
OR. The leaves have the degrees `x`. -/
inductive Rearranged : Tree β → Tree β → Prop
  | refl (t : Tree β) : Rearranged t t
  | symm {t u : Tree β} (h : Rearranged t u) : Rearranged u t
  | trans {t u v : Tree β} (h : Rearranged t u) (h' : Rearranged u v) : Rearranged t v
  | node (o : Operator) {left left' right right' : Tree β} (hleft : Rearranged left left')
      (hright : Rearranged right right') :
      Rearranged (.node o left right) (.node o left' right')
  | swap (o : Operator) (left right : Tree β) :
      Rearranged (.node o left right) (.node o right left)
  | regroup (o : Operator) (t u v : Tree β) :
      Rearranged (.node o (.node o t u) v) (.node o t (.node o u v))
  | dropTrue (t : Tree β) {u : Tree β} (hunit : ∀ b ∈ u.leaves, x b ∈ Icc (0 : K) 1)
      (hone : u.fold n.value s.value x = 1) : Rearranged (.node .and t u) t
  | dropFalse (t : Tree β) {u : Tree β} (hunit : ∀ b ∈ u.leaves, x b ∈ Icc (0 : K) 1)
      (hzero : u.fold n.value s.value x = 0) : Rearranged (.node .or t u) t

end

namespace Rearranged

variable {K β : Type} [Field K] [LinearOrder K] {n : TNorm} {s : SNorm} {x : β → K} {t u : Tree β}

/-- What is left out has degrees in the unit interval, so the one tree has if the other has. -/
theorem forall_leaves_mem_iff (h : t.Rearranged n s x u) :
    (∀ b ∈ t.leaves, x b ∈ Icc (0 : K) 1) ↔ ∀ b ∈ u.leaves, x b ∈ Icc (0 : K) 1 := by
  induction h with
  | refl t => rfl
  | symm _ ih => exact ih.symm
  | trans _ _ ih ih' => exact ih.trans ih'
  | node o _ _ ihl ihr => simp only [leaves, List.forall_mem_append, ihl, ihr]
  | swap o left right => simp only [leaves, List.forall_mem_append, and_comm]
  | regroup o t u v => simp only [leaves, List.forall_mem_append, and_assoc]
  | dropTrue t hunit _ => simp only [leaves, List.forall_mem_append, and_iff_left hunit]
  | dropFalse t hunit _ => simp only [leaves, List.forall_mem_append, and_iff_left hunit]

variable [IsStrictOrderedRing K]

/-- Rearranged trees have the same value. -/
theorem fold_eq (h : t.Rearranged n s x u) (ht : ∀ b ∈ t.leaves, x b ∈ Icc (0 : K) 1) :
    t.fold n.value s.value x = u.fold n.value s.value x := by
  induction h with
  | refl t => rfl
  | symm h ih => exact (ih (h.forall_leaves_mem_iff.2 ht)).symm
  | trans h _ ih ih' => exact (ih ht).trans (ih' (h.forall_leaves_mem_iff.1 ht))
  | node o _ _ ihl ihr =>
      rw [leaves, List.forall_mem_append] at ht
      cases o with
      | and => rw [fold, fold, ihl ht.1, ihr ht.2]
      | or => rw [fold, fold, ihl ht.1, ihr ht.2]
  | swap o left right =>
      cases o with
      | and => exact n.value_comm _ _
      | or => exact s.value_comm _ _
  | regroup o t u v =>
      simp only [leaves, List.forall_mem_append] at ht
      have hmem (w : Tree β) (hw : ∀ b ∈ w.leaves, x b ∈ Icc (0 : K) 1) := fold_mem n s hw
      cases o with
      | and => exact n.value_assoc (hmem t ht.1.1) (hmem u ht.1.2) (hmem v ht.2)
      | or => exact s.value_assoc (hmem t ht.1.1) (hmem u ht.1.2) (hmem v ht.2)
  | dropTrue t _ hone =>
      rw [leaves, List.forall_mem_append] at ht
      rw [fold, hone, n.value_one (fold_mem n s ht.1)]
  | dropFalse t _ hzero =>
      rw [leaves, List.forall_mem_append] at ht
      rw [fold, hzero, s.value_zero (fold_mem n s ht.1)]

end Rearranged

end FuzzyLogic.Tree
