import Mathlib.Algebra.Order.Field.Basic
import Mathlib.Algebra.Order.Group.MinMax
import Mathlib.Algebra.Order.Interval.Set.Instances
import Mathlib.Tactic.FieldSimp
import Mathlib.Tactic.Linarith
import Mathlib.Tactic.Ring
import FuzzyLogic.Norm

set_option autoImplicit false

/-! # Norms in exact arithmetic

On the numbers of an ordered field the stock norms are functions: none of them meets a division by
zero. Every s-norm is the dual of a t-norm, so what is to be shown for both kinds is shown for
t-norms. On the unit interval a t-norm is commutative, associative and monotone with unit one, and
from this follows that it does not leave the interval. -/

namespace FuzzyLogic

open Set

variable {K : Type} [Field K] [LinearOrder K]

/-! ## Truth values -/

/-- The truth value of AND. The Hamacher quotient is zero at the corner where its divisor is. -/
def TNorm.value : TNorm → K → K → K
  | minimum, x, y => min x y
  | product, x, y => x * y
  | lukasiewicz, x, y => max 0 (x + y - 1)
  | hamacher, x, y => x * y / (x + y - x * y)

/-- The t-norm that belongs to an s-norm. -/
def SNorm.dual : SNorm → TNorm
  | maximum => .minimum
  | probabilistic => .product
  | boundedSum => .lukasiewicz
  | hamacher => .hamacher

/-- The truth value of OR: what it lacks is the AND of what the two sides lack. -/
def SNorm.value (s : SNorm) (x y : K) : K :=
  1 - s.dual.value (1 - x) (1 - y)

/-! ## T-norms on the unit interval -/

namespace TNorm

variable {x x' y y' z : K}

theorem value_comm (n : TNorm) (x y : K) : n.value x y = n.value y x := by
  cases n with
  | minimum => exact min_comm x y
  | product => exact mul_comm x y
  | lukasiewicz => rw [value, value, add_comm]
  | hamacher => rw [value, value, add_comm, mul_comm]

theorem value_one (n : TNorm) (hx : x ∈ Icc (0 : K) 1) : n.value x 1 = x := by
  cases n with
  | minimum => exact min_eq_left hx.2
  | product => exact mul_one x
  | lukasiewicz => rw [value, add_sub_cancel_right, max_eq_right hx.1]
  | hamacher => rw [value, mul_one, add_sub_cancel_left, div_one]

variable [IsStrictOrderedRing K]

theorem divisor_nonneg (hx : 0 ≤ x) (hy : y ∈ Icc (0 : K) 1) : 0 ≤ x + y - x * y := by
  have hmul : x * y ≤ x := mul_le_of_le_one_right hx hy.2
  linarith [hy.1]

theorem divisor_le_divisor (hle : x ≤ x') (hy : y ≤ 1) : x + y - x * y ≤ x' + y - x' * y := by
  have hdiff : 0 ≤ (x' - x) * (1 - y) := mul_nonneg (sub_nonneg.2 hle) (sub_nonneg.2 hy)
  linarith

theorem value_nonneg (n : TNorm) (hx : x ∈ Icc (0 : K) 1) (hy : y ∈ Icc (0 : K) 1) :
    0 ≤ n.value x y := by
  cases n with
  | minimum => exact le_min hx.1 hy.1
  | product => exact mul_nonneg hx.1 hy.1
  | lukasiewicz => exact le_max_left 0 _
  | hamacher => exact div_nonneg (mul_nonneg hx.1 hy.1) (divisor_nonneg hx.1 hy)

theorem value_le_value_left (n : TNorm) (hx : x ∈ Icc (0 : K) 1) (hx' : x' ∈ Icc (0 : K) 1)
    (hy : y ∈ Icc (0 : K) 1) (hle : x ≤ x') : n.value x y ≤ n.value x' y := by
  cases n with
  | minimum => exact min_le_min_right y hle
  | product => exact mul_le_mul_of_nonneg_right hle hy.1
  | lukasiewicz => exact max_le_max_left 0 (by linarith)
  | hamacher =>
      obtain hpos | hzero := (divisor_nonneg hx.1 hy).lt_or_eq
      · have hpos' := hpos.trans_le (divisor_le_divisor hle hy.2)
        -- Multiplied out, the two sides differ by `(x' - x) * y ^ 2`.
        have hdiff : 0 ≤ (x' - x) * (y * y) :=
          mul_nonneg (sub_nonneg.2 hle) (mul_nonneg hy.1 hy.1)
        rw [value, value, div_le_div_iff₀ hpos hpos']
        linarith
      · have hcorner : (hamacher : TNorm).value x y = 0 := by rw [value, ← hzero, div_zero]
        rw [hcorner]
        exact value_nonneg hamacher hx' hy

theorem value_le_value (n : TNorm) (hx : x ∈ Icc (0 : K) 1) (hx' : x' ∈ Icc (0 : K) 1)
    (hy : y ∈ Icc (0 : K) 1) (hy' : y' ∈ Icc (0 : K) 1) (hxx' : x ≤ x') (hyy' : y ≤ y') :
    n.value x y ≤ n.value x' y' :=
  calc n.value x y
      ≤ n.value x' y := n.value_le_value_left hx hx' hy hxx'
    _ = n.value y x' := n.value_comm x' y
    _ ≤ n.value y' x' := n.value_le_value_left hy hy' hx' hyy'
    _ = n.value x' y' := n.value_comm y' x'

theorem value_mem (n : TNorm) (hx : x ∈ Icc (0 : K) 1) (hy : y ∈ Icc (0 : K) 1) :
    n.value x y ∈ Icc (0 : K) 1 := by
  refine ⟨n.value_nonneg hx hy, ?_⟩
  have hone : (1 : K) ∈ Icc (0 : K) 1 := right_mem_Icc.2 zero_le_one
  calc n.value x y
      ≤ n.value x 1 := n.value_le_value hx hx hy hone le_rfl hy.2
    _ = x := n.value_one hx
    _ ≤ 1 := hx.2

theorem lukasiewicz_lukasiewicz (x y : K) (hz : z ≤ 1) :
    lukasiewicz.value (lukasiewicz.value x y) z = max 0 (x + y + z - 2) := by
  have hsum : x + y - 1 + (z - 1) = x + y + z - 2 := by ring
  rw [value, value, add_sub_assoc, max_add, zero_add, ← max_assoc,
    max_eq_left (sub_nonpos.2 hz), hsum]

theorem hamacher_hamacher (hx : x ∈ Icc (0 : K) 1) (hy : y ∈ Icc (0 : K) 1) (z : K) :
    hamacher.value (hamacher.value x y) z
      = x * y * z / (x * y + x * z + y * z - 2 * (x * y * z)) := by
  by_cases h : x + y - x * y = 0
  · -- Only one corner has no quotient, and there both sides are zero.
    have hzero : x = 0 := by
      have hmul : 0 ≤ y * (1 - x) := mul_nonneg hy.1 (sub_nonneg.2 hx.2)
      linarith [hx.1]
    simp [value, hzero]
  · have hnum : x * y / (x + y - x * y) * z = x * y * z / (x + y - x * y) := by ring
    have hden : x * y / (x + y - x * y) + z - x * y * z / (x + y - x * y)
        = (x * y + x * z + y * z - 2 * (x * y * z)) / (x + y - x * y) := by
      field_simp
      ring
    rw [value, value, hnum, hden, div_div_div_cancel_right₀ h]

theorem value_assoc (n : TNorm) (hx : x ∈ Icc (0 : K) 1) (hy : y ∈ Icc (0 : K) 1)
    (hz : z ∈ Icc (0 : K) 1) : n.value (n.value x y) z = n.value x (n.value y z) := by
  cases n with
  | minimum => exact min_assoc x y z
  | product => exact mul_assoc x y z
  | lukasiewicz =>
      rw [lukasiewicz_lukasiewicz x y hz.2, value_comm _ x, lukasiewicz_lukasiewicz y z hx.2]
      congr 1
      ring
  | hamacher =>
      rw [hamacher_hamacher hx hy, value_comm _ x, hamacher_hamacher hy hz]
      congr 1 <;> ring

end TNorm

/-! ## S-norms on the unit interval -/

namespace SNorm

variable {x x' y y' z : K}

theorem value_comm (s : SNorm) (x y : K) : s.value x y = s.value y x := by
  rw [value, value, s.dual.value_comm]

variable [IsStrictOrderedRing K]

theorem value_le_value (s : SNorm) (hx : x ∈ Icc (0 : K) 1) (hx' : x' ∈ Icc (0 : K) 1)
    (hy : y ∈ Icc (0 : K) 1) (hy' : y' ∈ Icc (0 : K) 1) (hxx' : x ≤ x') (hyy' : y ≤ y') :
    s.value x y ≤ s.value x' y' :=
  sub_le_sub_left (s.dual.value_le_value (Icc.one_sub_mem hx') (Icc.one_sub_mem hx)
    (Icc.one_sub_mem hy') (Icc.one_sub_mem hy) (sub_le_sub_left hxx' 1) (sub_le_sub_left hyy' 1)) 1

theorem value_mem (s : SNorm) (hx : x ∈ Icc (0 : K) 1) (hy : y ∈ Icc (0 : K) 1) :
    s.value x y ∈ Icc (0 : K) 1 :=
  Icc.one_sub_mem (s.dual.value_mem (Icc.one_sub_mem hx) (Icc.one_sub_mem hy))

theorem value_zero (s : SNorm) (hx : x ∈ Icc (0 : K) 1) : s.value x 0 = x := by
  rw [value, sub_zero, s.dual.value_one (Icc.one_sub_mem hx), sub_sub_cancel]

theorem value_assoc (s : SNorm) (hx : x ∈ Icc (0 : K) 1) (hy : y ∈ Icc (0 : K) 1)
    (hz : z ∈ Icc (0 : K) 1) : s.value (s.value x y) z = s.value x (s.value y z) := by
  simp only [value, sub_sub_cancel]
  rw [s.dual.value_assoc (Icc.one_sub_mem hx) (Icc.one_sub_mem hy) (Icc.one_sub_mem hz)]

end SNorm

/-! ## Exact scalars -/

/-- A function in the place of the exponential function, which has no exact values. -/
class Exponential (K : Type) where
  exp : K → K

variable [Exponential K]

/-- The numbers of an ordered field as scalars. -/
instance (priority := low) Scalar.ofField : Scalar K where
  exp := Exponential.exp

namespace Scalar

theorem lesser_eq_min (x y : K) : lesser x y = min x y := by
  unfold lesser
  split
  · next h => rw [min_eq_right h.le]
  · next h => rw [min_eq_left (not_lt.1 h)]

theorem greater_eq_max (x y : K) : greater x y = max x y := by
  unfold greater
  split
  · next h => rw [max_eq_right h.le]
  · next h => rw [max_eq_left (not_lt.1 h)]

theorem divide_eq (x : K) {y : K} (hy : y ≠ 0) : divide x y = .ok (x / y) := by
  unfold divide
  rw [if_neg (by simpa using hy)]

end Scalar

/-- AND has a value everywhere. -/
theorem TNorm.apply_eq (n : TNorm) (x y : K) : n.apply x y = .ok (n.value x y) := by
  cases n with
  | minimum => exact congrArg Except.ok (Scalar.lesser_eq_min x y)
  | product => rfl
  | lukasiewicz => exact congrArg Except.ok (Scalar.greater_eq_max _ _)
  | hamacher =>
      unfold apply
      by_cases h : x + y - x * y = 0
      · simp [h, value]
      · simp only [beq_iff_eq, h, if_false]
        exact Scalar.divide_eq _ h

/-- OR has a value everywhere. -/
theorem SNorm.apply_eq [IsStrictOrderedRing K] (s : SNorm) (x y : K) :
    s.apply x y = .ok (s.value x y) := by
  cases s with
  | maximum =>
      refine (congrArg Except.ok (Scalar.greater_eq_max x y)).trans ?_
      rw [value, dual, TNorm.value, min_sub_sub_left, sub_sub_cancel]
  | probabilistic =>
      refine congrArg Except.ok ?_
      rw [value, dual, TNorm.value]
      ring
  | boundedSum =>
      refine (congrArg Except.ok (Scalar.lesser_eq_min _ _)).trans ?_
      rw [value, dual, TNorm.value, ← min_sub_sub_left, sub_zero]
      refine congrArg (fun z => Except.ok (min 1 z)) ?_
      ring
  | hamacher =>
      -- Both quotients have the divisor `1 - x * y`.
      have hdivisor : 1 - x + (1 - y) - (1 - x) * (1 - y) = 1 - x * y := by ring
      rw [value, dual, TNorm.value, hdivisor]
      unfold apply
      by_cases h : 1 - x * y = 0
      · simp [h]
      · simp only [beq_iff_eq, h, if_false]
        refine (Scalar.divide_eq _ h).trans (congrArg Except.ok ?_)
        rw [Scalar.two]
        field_simp
        ring

end FuzzyLogic
