import FuzzyLogic.Scalar
import Mathlib.Data.Option.NAry
import Mathlib.Data.Prod.Lex

set_option autoImplicit false

/-! # The order of floating-point numbers

A floating-point number that is undefined is not comparable with any number, itself included. All
other numbers have a rank, and comparing two of them is comparing their ranks. So the defined
numbers are linearly ordered, except that there are two zeros of one rank. -/

namespace FuzzyLogic.Scalar

open Float.Model

/-! ## Ranks -/

/-- The place of a defined number in the order: first by its sign and whether it is infinite, then
by its exponent, then by its mantissa. -/
def rank : UnpackedFloat → Option (ℤ ×ₗ ℤ ×ₗ ℤ)
  | .notANumber => none
  | .infinity .negative => some (toLex (-2, toLex (0, 0)))
  | .finite .negative m e _ => some (toLex (-1, toLex (-e, -m)))
  | .zero _ => some (toLex (0, toLex (0, 0)))
  | .finite .positive m e _ => some (toLex (1, toLex (e, m)))
  | .infinity .positive => some (toLex (2, toLex (0, 0)))

theorem compare_toLex (a b c d : ℤ) :
    compare (toLex (a, b)) (toLex (c, d)) = (compare a c).then (compare b d) := by
  rw [Prod.Lex.compare_def]
  rfl

theorem compare_neg_neg (a b : ℤ) : compare (-a) (-b) = (compare a b).swap := by
  have hswap : (compare a b).swap = compare b a := Std.OrientedCmp.eq_swap.symm
  rw [hswap]
  simp only [compare, compareOfLessAndEq, Int.neg_lt_neg_iff, Int.neg_inj, eq_comm]

/-- Numbers compare as their ranks. -/
theorem compare_eq (a b : UnpackedFloat) :
    a.compare b = Option.map₂ compare (rank a) (rank b) := by
  cases a with
  | notANumber => rfl
  | infinity s =>
      cases b with
      | notANumber => cases s <;> rfl
      | infinity t => cases s <;> cases t <;> rfl
      | zero t => cases s <;> rfl
      | finite t n f hn => cases s <;> cases t <;> rfl
  | zero s =>
      cases b with
      | notANumber => rfl
      | infinity t => cases t <;> rfl
      | zero t => rfl
      | finite t n f hn => cases t <;> rfl
  | finite s m e hm =>
      cases b with
      | notANumber => cases s <;> rfl
      | infinity t => cases s <;> cases t <;> rfl
      | zero t => cases s <;> rfl
      | finite t n f hn =>
          -- Of two numbers of one sign the exponents decide, and then the mantissas.
          have hmantissa : compare (m : ℤ) n = compare m n := by
            simp only [compare, compareOfLessAndEq, Int.ofNat_lt, Int.ofNat_inj]
          have hpositive : compare (toLex (e, (m : ℤ))) (toLex (f, (n : ℤ)))
              = (compare e f).then (compare m n) := by
            rw [compare_toLex, hmantissa]
          have hnegative : compare (toLex (-e, -(m : ℤ))) (toLex (-f, -(n : ℤ)))
              = ((compare e f).then (compare m n)).swap := by
            rw [compare_toLex, compare_neg_neg, compare_neg_neg, hmantissa, Ordering.swap_then]
          cases s with
          | negative =>
              cases t with
              | negative => exact congrArg some hnegative.symm
              | positive => rfl
          | positive =>
              cases t with
              | negative => rfl
              | positive => exact congrArg some hpositive.symm

/-! ## Comparison -/

variable {x y z : Float}

/-- The place of a floating-point number among the defined ones. -/
def place (x : Float) : Option (ℤ ×ₗ ℤ ×ₗ ℤ) :=
  rank x.toModel.unpack

theorem lt_iff : x < y ↔ ∃ i j, place x = some i ∧ place y = some j ∧ i < j := by
  have hmodel : x < y ↔ x.toModel < y.toModel := by
    change Float.lt x y = true ↔ _
    exact decide_eq_true_iff
  have hcompare : x < y ↔ x.toModel.unpack.compare y.toModel.unpack = some .lt :=
    hmodel.trans beq_iff_eq
  simp only [hcompare, compare_eq, Option.map₂_eq_some_iff, compare_lt_iff_lt, Option.mem_def,
    place]

theorem le_iff : x ≤ y ↔ ∃ i j, place x = some i ∧ place y = some j ∧ i ≤ j := by
  have hmodel : x ≤ y ↔ x.toModel ≤ y.toModel := by
    change Float.le x y = true ↔ _
    exact decide_eq_true_iff
  have hcompare : x ≤ y ↔
      ∃ o, x.toModel.unpack.compare y.toModel.unpack = some o ∧ o.isLE = true :=
    hmodel.trans (Option.any_eq_true _ _)
  rw [hcompare]
  simp only [compare_eq, Option.map₂_eq_some_iff, Option.mem_def, place]
  constructor
  · rintro ⟨o, ⟨i, j, hi, hj, rfl⟩, ho⟩
    exact ⟨i, j, hi, hj, compare_le_iff_le.1 (Ordering.ne_gt_iff_isLE.2 ho)⟩
  · rintro ⟨i, j, hi, hj, hle⟩
    exact ⟨_, ⟨i, j, hi, hj, rfl⟩, Ordering.ne_gt_iff_isLE.1 (compare_le_iff_le.2 hle)⟩

theorem beq_iff : (x == y) = true ↔ ∃ i, place x = some i ∧ place y = some i := by
  have hcompare : (x == y) = true ↔ x.toModel.unpack.compare y.toModel.unpack = some .eq := by
    change (x.toModel.unpack.compare y.toModel.unpack == some .eq) = true ↔ _
    exact beq_iff_eq
  simp only [hcompare, compare_eq, Option.map₂_eq_some_iff, compare_eq_iff_eq, Option.mem_def,
    place]
  constructor
  · rintro ⟨i, j, hi, hj, rfl⟩
    exact ⟨i, hi, hj⟩
  · rintro ⟨i, hi, hj⟩
    exact ⟨i, i, hi, hj, rfl⟩

theorem isUndefined_eq_false_iff : isUndefined x = false ↔ ∃ i, place x = some i := by
  rw [isUndefined, Bool.not_eq_false', beq_iff]
  simp only [and_self]

/-! ## The order of the defined numbers -/

theorem le_of_lt (h : x < y) : x ≤ y := by
  obtain ⟨i, j, hi, hj, hlt⟩ := lt_iff.1 h
  exact le_iff.2 ⟨i, j, hi, hj, hlt.le⟩

theorem le_self_of_lt (h : x < y) : x ≤ x := by
  obtain ⟨i, -, hi, -, -⟩ := lt_iff.1 h
  exact le_iff.2 ⟨i, i, hi, hi, le_rfl⟩

theorem isUndefined_of_lt (h : x < y) : isUndefined x = false := by
  obtain ⟨i, -, hi, -, -⟩ := lt_iff.1 h
  exact isUndefined_eq_false_iff.2 ⟨i, hi⟩

/-- Only defined numbers are compared. -/
theorem defined_of_le (h : x ≤ y) : isUndefined x = false ∧ isUndefined y = false := by
  obtain ⟨i, j, hi, hj, -⟩ := le_iff.1 h
  exact ⟨isUndefined_eq_false_iff.2 ⟨i, hi⟩, isUndefined_eq_false_iff.2 ⟨j, hj⟩⟩

theorem not_le_of_undefined (hx : isUndefined x = true) (y : Float) : ¬ x ≤ y := fun h =>
  absurd (hx.symm.trans (defined_of_le h).1) (by decide)

theorem not_ge_of_undefined (hx : isUndefined x = true) (y : Float) : ¬ y ≤ x := fun h =>
  absurd (hx.symm.trans (defined_of_le h).2) (by decide)

theorem lt_trans (hxy : x < y) (hyz : y < z) : x < z := by
  obtain ⟨i, j, hi, hj, hij⟩ := lt_iff.1 hxy
  obtain ⟨j', k, hj', hk, hjk⟩ := lt_iff.1 hyz
  obtain rfl := Option.some.inj (hj.symm.trans hj')
  exact lt_iff.2 ⟨i, k, hi, hk, hij.trans hjk⟩

theorem lt_of_not_le (hx : isUndefined x = false) (hy : isUndefined y = false) (h : ¬ x ≤ y) :
    y < x := by
  obtain ⟨i, hi⟩ := isUndefined_eq_false_iff.1 hx
  obtain ⟨j, hj⟩ := isUndefined_eq_false_iff.1 hy
  exact lt_iff.2 ⟨j, i, hj, hi, not_le.1 fun hle => h (le_iff.2 ⟨i, j, hi, hj, hle⟩)⟩

theorem le_of_not_lt (hx : isUndefined x = false) (hy : isUndefined y = false) (h : ¬ x < y) :
    y ≤ x := by
  obtain ⟨i, hi⟩ := isUndefined_eq_false_iff.1 hx
  obtain ⟨j, hj⟩ := isUndefined_eq_false_iff.1 hy
  exact le_iff.2 ⟨j, i, hj, hi, not_lt.1 fun hlt => h (lt_iff.2 ⟨i, j, hi, hj, hlt⟩)⟩

theorem not_le_of_lt (h : x < y) : ¬ y ≤ x := by
  obtain ⟨i, j, hi, hj, hlt⟩ := lt_iff.1 h
  rintro hle
  obtain ⟨j', i', hj', hi', hji⟩ := le_iff.1 hle
  obtain rfl := Option.some.inj (hi.symm.trans hi')
  obtain rfl := Option.some.inj (hj.symm.trans hj')
  exact not_le.2 hlt hji

theorem lt_asymm (h : x < y) : ¬ y < x :=
  fun h' => not_le_of_lt h (le_of_lt h')

theorem le_refl_of_le (h : x ≤ y) : y ≤ y := by
  obtain ⟨-, j, -, hj, -⟩ := le_iff.1 h
  exact le_iff.2 ⟨j, j, hj, hj, le_rfl⟩

theorem beq_of_le_of_le (hxy : x ≤ y) (hyx : y ≤ x) : (x == y) = true := by
  obtain ⟨i, j, hi, hj, hij⟩ := le_iff.1 hxy
  obtain ⟨j', i', hj', hi', hji⟩ := le_iff.1 hyx
  obtain rfl := Option.some.inj (hi.symm.trans hi')
  obtain rfl := Option.some.inj (hj.symm.trans hj')
  obtain rfl := le_antisymm hij hji
  exact beq_iff.2 ⟨i, hi, hj⟩

theorem le_of_beq (h : (x == y) = true) : x ≤ y := by
  obtain ⟨i, hx, hy⟩ := beq_iff.1 h
  exact le_iff.2 ⟨i, i, hx, hy, le_rfl⟩

theorem lt_of_le_of_not_beq (hle : x ≤ y) (hne : ¬ (y == x) = true) : x < y := by
  obtain ⟨i, j, hi, hj, hij⟩ := le_iff.1 hle
  refine lt_iff.2 ⟨i, j, hi, hj, hij.lt_of_ne ?_⟩
  rintro rfl
  exact hne (beq_iff.2 ⟨i, hj, hi⟩)

end FuzzyLogic.Scalar
