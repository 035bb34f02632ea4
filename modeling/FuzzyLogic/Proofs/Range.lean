import FuzzyLogic.Model.Variable
import FuzzyLogic.Proofs.Pattern

set_option autoImplicit false

/-! # Numbers in a range

Which numbers a variable admits as its input, and what becomes of a number that is moved into the
range. A number that lies there stays what it is, and any other one becomes the end of the range on
its side. An undefined number has no side: it becomes the upper end. -/

namespace FuzzyLogic.LinguisticVariable

/-- The input that a variable is given for `x`, which may be moved into the range first. -/
def taken {α : Type} [Scalar α] (v : LinguisticVariable α) (clamp : Bool) (x : α) : α :=
  if clamp then v.clamp x else x

/-- What a number becomes when it is moved into the range: it stays the number that it is if it lies
there, and else it becomes the end of the range on its side. -/
inductive Nearest (v : LinguisticVariable Float) (x : Float) : Float → Prop
  | inside {y : Float} (hlower : v.lower ≤ x) (hupper : x ≤ v.upper) (hsame : Scalar.Same y x) :
      Nearest v x y
  | below (h : x < v.lower) : Nearest v x v.lower
  | above (h : v.upper < x) : Nearest v x v.upper

variable {v : LinguisticVariable Float} {x : Float}

theorem admits_iff_le : v.admits x = true ↔ v.lower ≤ x ∧ x ≤ v.upper := by
  rw [admits, Bool.and_eq_true, Bool.not_eq_true', decide_eq_true_iff]
  exact and_iff_right_of_imp fun h => (Scalar.defined_of_le h.1).2

theorem clamp_of_lt_lower (h : x < v.lower) (hv : v.lower < v.upper) : v.clamp x = v.lower := by
  have hlesser : Scalar.lesser v.upper x = x := if_pos (Scalar.lt_trans h hv)
  rw [clamp, hlesser]
  exact if_neg (Scalar.lt_asymm h)

theorem clamp_of_not_lt_upper (h : ¬ x < v.upper) (hv : v.lower < v.upper) :
    v.clamp x = v.upper := by
  have hlesser : Scalar.lesser v.upper x = v.upper := if_neg h
  rw [clamp, hlesser]
  exact if_pos hv

/-- An undefined number does not lie below the upper end. -/
theorem clamp_of_undefined (hx : Scalar.isUndefined x = true) (hv : v.lower < v.upper) :
    v.clamp x = v.upper := by
  refine clamp_of_not_lt_upper (fun hlt => ?_) hv
  exact absurd (hx.symm.trans (Scalar.isUndefined_of_lt hlt)) (by decide)

theorem same_clamp (hlower : v.lower ≤ x) (hupper : x < v.upper) :
    Scalar.Same (v.clamp x) x := by
  have hlesser : Scalar.lesser v.upper x = x := if_pos hupper
  rw [clamp, hlesser, Scalar.greater]
  split
  · exact .refl x
  · next h =>
      obtain ⟨hv, hx⟩ := Scalar.defined_of_le hlower
      have hge := Scalar.le_of_not_lt hv hx h
      exact Scalar.same_of_beq (Scalar.beq_of_le_of_le hlower hge)

/-- **Moving a number into the range makes it the nearest one there.** -/
theorem nearest_clamp (hv : v.lower < v.upper) (hx : Scalar.isUndefined x = false) :
    v.Nearest x (v.clamp x) := by
  have hlower := Scalar.isUndefined_of_lt hv
  have hupper := (Scalar.defined_of_le (Scalar.le_of_lt hv)).2
  by_cases hbelow : x < v.lower
  · rw [clamp_of_lt_lower hbelow hv]
    exact .below hbelow
  replace hbelow := Scalar.le_of_not_lt hx hlower hbelow
  by_cases hlt : x < v.upper
  · exact .inside hbelow (Scalar.le_of_lt hlt) (same_clamp hbelow hlt)
  rw [clamp_of_not_lt_upper hlt hv]
  by_cases habove : v.upper < x
  · exact .above habove
  · have hle := Scalar.le_of_not_lt hupper hx habove
    have hge := Scalar.le_of_not_lt hx hupper hlt
    exact .inside hbelow hle (Scalar.same_of_beq (Scalar.beq_of_le_of_le hge hle))

theorem Nearest.same {y : Float} (h : v.Nearest x y)
    (hlower : v.lower ≤ x) (hupper : x ≤ v.upper) : Scalar.Same y x := by
  cases h with
  | inside _ _ hsame => exact hsame
  | below h => exact absurd hlower (Scalar.not_le_of_lt h)
  | above h => exact absurd hupper (Scalar.not_le_of_lt h)

theorem admits_clamp (hv : v.lower < v.upper) (x : Float) : v.admits (v.clamp x) = true := by
  have hle := Scalar.le_of_lt hv
  rw [admits_iff_le]
  by_cases hlt : x < v.upper
  · have hlesser : Scalar.lesser v.upper x = x := if_pos hlt
    rw [clamp, hlesser, Scalar.greater]
    split
    · next h => exact ⟨Scalar.le_of_lt h, Scalar.le_of_lt hlt⟩
    · exact ⟨Scalar.le_self_of_lt hv, hle⟩
  · rw [clamp_of_not_lt_upper hlt hv]
    exact ⟨hle, Scalar.le_refl_of_le hle⟩

end FuzzyLogic.LinguisticVariable
