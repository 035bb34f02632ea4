import FuzzyLogic.Proofs.Difference
import FuzzyLogic.Proofs.Membership

set_option autoImplicit false

/-! # Degrees at floating-point numbers

A membership function whose parameters are in order has a degree at every defined number. The tests
that come before a quotient leave only a number strictly between two corners, so the divisor is a
difference of two numbers one of which is below the other. An undefined number fails all of these
tests and gets to the last quotient, whose divisor is zero if the edge on the right is vertical. -/

namespace FuzzyLogic

open Scalar

namespace MembershipFunction

variable {a b c d x : Float}

/-- Strictly between two corners the quotient by their distance exists. -/
theorem divide_slope_eq_ok (hax : a < x) (hxb : x < b) (y : Float) :
    divide y (b - a) = .ok (y / (b - a)) :=
  divide_sub_eq_ok (Scalar.lt_trans hax hxb) y

theorem exists_degree_leftShoulder (h : b < c) : ∃ y, (leftShoulder b c).degree x = .ok y := by
  simp only [degree]
  split
  · exact ⟨1, rfl⟩
  · split
    · exact ⟨0, rfl⟩
    · exact ⟨_, divide_sub_eq_ok h (c - x)⟩

theorem exists_degree_rightShoulder (h : a < b) : ∃ y, (rightShoulder a b).degree x = .ok y := by
  simp only [degree]
  split
  · exact ⟨1, rfl⟩
  · split
    · exact ⟨0, rfl⟩
    · exact ⟨_, divide_sub_eq_ok h (x - a)⟩

theorem exists_degree_triangle (hab : a ≤ b) (hbc : b ≤ c) (hx : isUndefined x = false) :
    ∃ y, (triangle a b c).degree x = .ok y := by
  obtain ⟨ha, hb⟩ := defined_of_le hab
  have hc := (defined_of_le hbc).2
  simp only [degree]
  split
  · exact ⟨_, rfl⟩
  · next hout =>
      obtain ⟨hxa, hcx⟩ := not_or.1 hout
      split
      · exact ⟨1, rfl⟩
      · next hne =>
          split
          · next hxb => exact ⟨_, divide_slope_eq_ok (lt_of_not_le hx ha hxa) hxb (x - a)⟩
          · next hxb =>
              have hbx : b < x := lt_of_le_of_not_beq (le_of_not_lt hx hb hxb) hne
              exact ⟨_, divide_slope_eq_ok hbx (lt_of_not_le hc hx hcx) (c - x)⟩

theorem exists_degree_trapezoid (hab : a ≤ b) (hcd : c ≤ d) (hx : isUndefined x = false) :
    ∃ y, (trapezoid a b c d).degree x = .ok y := by
  obtain ⟨ha, hb⟩ := defined_of_le hab
  obtain ⟨hc, hd⟩ := defined_of_le hcd
  simp only [degree]
  split
  · exact ⟨1, rfl⟩
  · next hcore =>
      split
      · exact ⟨0, rfl⟩
      · next hout =>
          obtain ⟨hxa, hdx⟩ := not_or.1 hout
          split
          · next hxb => exact ⟨_, divide_slope_eq_ok (lt_of_not_le hx ha hxa) hxb (x - a)⟩
          · next hxb =>
              have hcx : c < x :=
                lt_of_not_le hx hc fun hxc => hcore ⟨le_of_not_lt hx hb hxb, hxc⟩
              exact ⟨_, divide_slope_eq_ok hcx (lt_of_not_le hd hx hdx) (d - x)⟩

theorem exists_degree_bell (h : (bell a b).Ordered) : ∃ y, (bell a b).degree x = .ok y := by
  have hdivide : divide (x - a) b = .ok ((x - a) / b) := if_neg fun hzero => h (le_of_beq hzero)
  simp only [degree, hdivide]
  exact ⟨_, rfl⟩

/-- **A membership function has a degree at every defined number.** -/
theorem exists_degree {f : MembershipFunction Float} (hf : f.Ordered)
    (hx : isUndefined x = false) : ∃ y, f.degree x = .ok y := by
  cases f with
  | triangle left peak right => exact exists_degree_triangle hf.1 hf.2 hx
  | trapezoid left coreLeft coreRight right => exact exists_degree_trapezoid hf.1 hf.2.2 hx
  | leftShoulder core foot => exact exists_degree_leftShoulder hf
  | rightShoulder foot core => exact exists_degree_rightShoulder hf
  | bell center width => exact exists_degree_bell hf

end MembershipFunction

/-- A label whose function has its parameters in order has a degree of membership everywhere. -/
theorem Label.exists_membership {l : Label Float} (hl : l.function.Ordered) {x : Float}
    (hx : isUndefined x = false) : ∃ y, l.membership x = .ok y := by
  obtain ⟨y, hy⟩ := MembershipFunction.exists_degree hl hx
  exact ⟨clampUnit y, bind_eq_ok_iff.2 ⟨y, hy, rfl⟩⟩

/-! ## Degrees at any number -/

/-- There is a result unless `p` holds, and then the error is `e`. -/
def ResultUnless {ε β : Type} (p : Prop) (e : ε) (r : Except ε β) : Prop :=
  p ∧ r = .error e ∨ ¬ p ∧ ∃ y, r = .ok y

namespace ResultUnless

variable {β γ : Type} {p : Prop} {e : Fault} {r : Except Fault β}

theorem of_ok (hp : ¬ p) (h : ∃ y, r = .ok y) : ResultUnless p e r :=
  .inr ⟨hp, h⟩

theorem map (h : ResultUnless p e r) (g : β → γ) :
    ResultUnless p e (r >>= fun b => .ok (g b)) := by
  obtain ⟨hp, rfl⟩ | ⟨hp, b, rfl⟩ := h
  · exact .inl ⟨hp, rfl⟩
  · exact .of_ok hp ⟨g b, rfl⟩

theorem lift (h : ResultUnless p e r) :
    ResultUnless p (.fault e : ModelError Float) (ModelError.lift r) := by
  obtain ⟨hp, rfl⟩ | ⟨hp, b, rfl⟩ := h
  · exact .inl ⟨hp, rfl⟩
  · exact .inr ⟨hp, b, rfl⟩

end ResultUnless

/-- An edge between the two numbers has no width: they are equal, and not infinite. -/
def Upright (top foot : Float) : Prop :=
  (top == foot) = true ∧ foot.isFinite = true

theorem resultUnless_divide_sub {a b : Float} (h : a ≤ b) (z : Float) :
    ResultUnless (Upright a b) .divisionByZero (divide z (b - a)) := by
  by_cases hupright : Upright a b
  · exact .inl ⟨hupright, (divide_sub_eq_error_iff h z).2 hupright⟩
  · refine .of_ok hupright ⟨z / (b - a), if_neg fun hzero => ?_⟩
    exact hupright ((divide_sub_eq_error_iff h z).1 (if_pos hzero))

namespace MembershipFunction

/-- The edge on the right is vertical. -/
def EndsUpright : MembershipFunction Float → Prop
  | triangle _ peak right => Upright peak right
  | trapezoid _ _ coreRight right => Upright coreRight right
  | _ => False

variable {a b c d x : Float}

/-- At an undefined number every test of a triangle fails, so that its last quotient is met. -/
theorem degree_triangle_of_undefined (hx : isUndefined x = true) :
    (triangle a b c).degree x = divide (c - x) (c - b) := by
  have hout : ¬ (x ≤ a ∨ c ≤ x) :=
    not_or.2 ⟨not_le_of_undefined hx a, not_ge_of_undefined hx c⟩
  have hpeak : ¬ (x == b) = true := fun h => not_le_of_undefined hx b (le_of_beq h)
  have hrise : ¬ x < b := fun h => not_le_of_undefined hx b (Scalar.le_of_lt h)
  rw [degree, if_neg hout, if_neg hpeak, if_neg hrise]

theorem degree_trapezoid_of_undefined (hx : isUndefined x = true) :
    (trapezoid a b c d).degree x = divide (d - x) (d - c) := by
  have hcore : ¬ (b ≤ x ∧ x ≤ c) := fun h => not_ge_of_undefined hx b h.1
  have hout : ¬ (x ≤ a ∨ d ≤ x) :=
    not_or.2 ⟨not_le_of_undefined hx a, not_ge_of_undefined hx d⟩
  have hrise : ¬ x < b := fun h => not_le_of_undefined hx b (Scalar.le_of_lt h)
  rw [degree, if_neg hcore, if_neg hout, if_neg hrise]

/-- **A membership function has a degree at every number**, except that one whose right edge is
vertical divides by zero at an undefined number. -/
theorem resultUnless_degree {f : MembershipFunction Float} (hf : f.Ordered) (x : Float) :
    ResultUnless (isUndefined x = true ∧ f.EndsUpright) .divisionByZero (f.degree x) := by
  cases hx : isUndefined x with
  | false => exact .of_ok (by simp) (exists_degree hf hx)
  | true =>
      simp only [true_and]
      cases f with
      | triangle left peak right =>
          rw [degree_triangle_of_undefined hx]
          exact resultUnless_divide_sub hf.2 _
      | trapezoid left coreLeft coreRight right =>
          rw [degree_trapezoid_of_undefined hx]
          exact resultUnless_divide_sub hf.2.2 _
      | leftShoulder core foot => exact .of_ok id (exists_degree_leftShoulder hf)
      | rightShoulder foot core => exact .of_ok id (exists_degree_rightShoulder hf)
      | bell center width => exact .of_ok id (exists_degree_bell hf)

end MembershipFunction

/-! ## Memberships of any number -/

namespace LinguisticVariable

variable {v : LinguisticVariable Float} {label : String} {l : Label Float}

theorem resultUnless_of_ordered (hlabel : v.labels.get? label = some l) (hl : l.function.Ordered)
    (x : Float) :
    ResultUnless (isUndefined x = true ∧ l.function.EndsUpright) (.fault .divisionByZero)
      (v.labelMembership label x) := by
  rw [labelMembership, hlabel]
  exact ((MembershipFunction.resultUnless_degree hl x).map clampUnit).lift

/-- **A number of any kind has a membership in every label whose parameters were accepted**, with
one exception: an undefined number and a label whose right edge is vertical make a division by zero.
-/
theorem resultUnless_labelMembership (hlabel : v.labels.get? label = some l) {shape : String}
    {params : List (Except String Float)}
    (hl : MembershipFunction.make shape params = .ok l.function) (x : Float) :
    ResultUnless (isUndefined x = true ∧ l.function.EndsUpright) (.fault .divisionByZero)
      (v.labelMembership label x) :=
  resultUnless_of_ordered hlabel (MembershipFunction.ordered_of_make hl) x

/-- An undefined number has a membership in a triangle whose left edge is vertical. -/
theorem resultUnless_labelMembership_left :
    let l : Label Float := ⟨0, "Low", .triangle 0 0 1⟩
    let v : LinguisticVariable Float := ⟨"T", 0, 1, .ofList [("Low", l)], 0⟩
    v.labels.get? "Low" = some l ∧
    MembershipFunction.make "tri" [.ok 0, .ok 0, .ok 1] = .ok l.function ∧
    ResultUnless (isUndefined (0 / 0 : Float) = true ∧ l.function.EndsUpright)
      (.fault .divisionByZero) (v.labelMembership "Low" (0 / 0)) := by
  intro l v
  have hlabel : v.labels.get? "Low" = some l := rfl
  have hmake : MembershipFunction.make "tri" [.ok 0, .ok 0, .ok 1] = .ok l.function :=
    MembershipFunction.make_triangle (by decide +kernel) (by decide +kernel)
  exact ⟨hlabel, hmake, resultUnless_labelMembership hlabel hmake (0 / 0)⟩

/-- A triangle whose right edge is vertical is accepted, and an undefined number has no membership
in it: there is a division by zero. -/
theorem labelMembership_undefined_upright :
    let l : Label Float := ⟨0, "High", .triangle 0 1 1⟩
    let v : LinguisticVariable Float := ⟨"T", 0, 1, .ofList [("High", l)], 0⟩
    MembershipFunction.make "tri" [.ok 0, .ok 1, .ok 1] = .ok l.function ∧
    v.labelMembership "High" (0 / 0) = .error (.fault .divisionByZero) := by
  intro l v
  have hmake : MembershipFunction.make "tri" [.ok 0, .ok 1, .ok 1] = .ok l.function :=
    MembershipFunction.make_triangle (by decide +kernel) (by decide +kernel)
  have hlabel : v.labels.get? "High" = some l := rfl
  have hupright : isUndefined (0 / 0 : Float) = true ∧ l.function.EndsUpright :=
    ⟨by decide +kernel, by decide +kernel, by decide +kernel⟩
  obtain ⟨-, hfault⟩ | ⟨hnot, -⟩ :=
    resultUnless_of_ordered hlabel (MembershipFunction.ordered_of_make hmake) (0 / 0)
  · exact ⟨hmake, hfault⟩
  · exact absurd hupright hnot

end LinguisticVariable

end FuzzyLogic
