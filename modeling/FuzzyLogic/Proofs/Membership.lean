import Mathlib.Analysis.SpecialFunctions.Exp
import FuzzyLogic.Proofs.Extended
import FuzzyLogic.Proofs.Model.Update

set_option autoImplicit false

/-! # Degrees of membership

A label built from parameters of any kind has a degree at every admissible input, and no division by
zero is met. The degree lies in the unit interval with one kind of exception: where two infinities
meet in a quotient, or a parameter of a bell curve is undefined, so is the degree. -/

namespace FuzzyLogic

namespace MembershipFunction

/-! ## Parameters -/

section

variable {α : Type} [Scalar α]

/-- The parameters are in the order that the shape requires. -/
def Ordered : MembershipFunction α → Prop
  | triangle left peak right => left ≤ peak ∧ peak ≤ right
  | trapezoid left coreLeft coreRight right =>
    left ≤ coreLeft ∧ coreLeft ≤ coreRight ∧ coreRight ≤ right
  | leftShoulder core foot => core < foot
  | rightShoulder foot core => foot < core
  | bell _ width => ¬ width ≤ 0

theorem ordered_of_ofShape? {shape : Shape} {params : List α} {f : MembershipFunction α}
    (h : ofShape? shape params = .ok f) : f.Ordered := by
  unfold ofShape? at h
  split at h
  case h_3 =>
    -- Of a bell curve it is checked what its width must not be, of the others what must be.
    rw [bell?, ← ite_not] at h
    obtain ⟨hwidth, rfl⟩ := ite_eq_ok_iff.1 h
    exact hwidth
  case h_6 => cases h
  all_goals
    obtain ⟨horder, rfl⟩ := ite_eq_ok_iff.1 h
    exact horder

/-- Only parameters in order make a membership function. -/
theorem ordered_of_make {name : String} {params : List (Except String α)}
    {f : MembershipFunction α} (h : make name params = .ok f) : f.Ordered := by
  simp only [make] at h
  split at h
  · cases h
  · split at h
    · obtain ⟨numbers, -, hf⟩ := bind_eq_ok_iff.1 h
      exact ordered_of_ofShape? hf
    · cases h

theorem make_triangle {a b c : α} (hab : a ≤ b) (hbc : b ≤ c) :
    make "tri" [.ok a, .ok b, .ok c] = .ok (.triangle a b c) := by
  have hname : Shape.ofName? (Text.lower "tri") = some .triangle := by decide
  have htriangle : triangle? a b c = .ok (.triangle a b c) := if_pos ⟨hab, hbc⟩
  simp only [make, hname]
  exact htriangle

end

/-! ## Where a degree is undefined -/

section

variable {K : Type} [LinearOrder K]

open Extended

/-- The slope on which `x` lies rises to `core` from a foot that is infinitely far away. -/
def RisesForever (foot core x : Extended K) : Prop :=
  foot = infinite true ∧ foot < x ∧ x < core

/-- The slope on which `x` lies falls from `core` to a foot that is infinitely far away. -/
def FallsForever (core foot x : Extended K) : Prop :=
  foot = infinite false ∧ core < x ∧ x < foot

variable {a b x : Extended K}

theorem not_between_of_le (h : x ≤ a ∨ b ≤ x) : ¬ (a < x ∧ x < b) := by
  rintro ⟨hax, hxb⟩
  exact h.elim (not_le_of_lt hax) (not_le_of_lt hxb)

/-- The formula of the shape has no result at `x`: a slope does not end, or a bell curve has an
undefined parameter, or the distance from its center is a difference of equal infinities, or this
distance and the width are both infinite. -/
def Indeterminate : MembershipFunction (Extended K) → Extended K → Prop
  | triangle left peak right, x => RisesForever left peak x ∨ FallsForever peak right x
  | trapezoid left coreLeft coreRight right, x =>
    RisesForever left coreLeft x ∨ FallsForever coreRight right x
  | leftShoulder core foot, x => FallsForever core foot x
  | rightShoulder foot core, x => RisesForever foot core x
  | bell center width, x =>
    center = undefined ∨ width = undefined ∨ x.IsInfinite ∧ x = center
      ∨ width.IsInfinite ∧ (x.IsInfinite ∨ center.IsInfinite)

end

end MembershipFunction

/-! ## The exponential function -/

section

variable (K : Type) [Field K] [LinearOrder K] [Exponential (Extended K)]

open Extended

/-- What is relied on: the exponential function takes the numbers that are not positive to the unit
interval, and an undefined number to an undefined number. -/
structure Exponential.Damped : Prop where
  nonneg : ∀ x : Extended K, x ≤ 0 → 0 ≤ Exponential.exp x
  le_one : ∀ x : Extended K, x ≤ 0 → Exponential.exp x ≤ 1
  undefined : Exponential.exp (undefined : Extended K) = undefined

end

/-- The exponential function on the extended real numbers. -/
noncomputable instance : Exponential (Extended ℝ) where
  exp
    | .finite q => .finite (Real.exp q)
    | .infinite true => 0
    | .infinite false => .infinite false
    | .undefined => .undefined

theorem Exponential.damped_real : Exponential.Damped ℝ where
  nonneg x hx := by
    cases x with
    | finite q => exact (Real.exp_pos q).le
    | infinite s =>
        obtain rfl : s = true := hx
        exact le_refl (0 : ℝ)
    | undefined => exact hx.elim
  le_one x hx := by
    cases x with
    | finite q => exact Real.exp_le_one_iff.2 hx
    | infinite s =>
        obtain rfl : s = true := hx
        exact zero_le_one' ℝ
    | undefined => exact hx.elim
  undefined := rfl

/-! ## Results that are degrees -/

section

variable {K : Type} [Field K] [LinearOrder K]

open Extended

/-- The result is in the unit interval, or undefined if `p` holds. -/
def DegreeUnless (p : Prop) (r : Except Fault (Extended K)) : Prop :=
  ∃ d, r = .ok d ∧ (p ∧ d = undefined ∨ ¬ p ∧ 0 ≤ d ∧ d ≤ 1)

namespace DegreeUnless

variable {p q : Prop} {r : Except Fault (Extended K)}

theorem congr (h : p ↔ q) (hr : DegreeUnless p r) : DegreeUnless q r := by
  rwa [DegreeUnless, ← h]

theorem of_undefined (hp : p) : DegreeUnless p (.ok (undefined : Extended K)) :=
  ⟨_, rfl, .inl ⟨hp, rfl⟩⟩

variable [IsStrictOrderedRing K]

theorem zero (hp : ¬ p) : DegreeUnless p (.ok (0 : Extended K)) :=
  ⟨0, rfl, .inr ⟨hp, le_refl (0 : K), zero_le_one⟩⟩

theorem one (hp : ¬ p) : DegreeUnless p (.ok (1 : Extended K)) :=
  ⟨1, rfl, .inr ⟨hp, zero_le_one, le_refl (1 : K)⟩⟩

variable [Exponential (Extended K)]

theorem clampUnit {d : Extended K} (h : p ↔ d = undefined) :
    DegreeUnless p (.ok (Scalar.clampUnit d)) := by
  refine ⟨_, rfl, ?_⟩
  by_cases hp : p
  · refine .inl ⟨hp, ?_⟩
    rw [h.1 hp, clampUnit_undefined]
  · exact .inr ⟨hp, clampUnit_mem fun hd => hp (h.2 hd)⟩

end DegreeUnless

end

namespace MembershipFunction

/-! ## The distance from the center of a bell curve -/

section

variable {K : Type} [Field K] [LinearOrder K] {x : Extended K}

open Extended

theorem quotient_eq_undefined_iff {center width : Extended K} (hwidth : ¬ width ≤ 0)
    (hx : x ≠ undefined) :
    (x - center) / width = undefined ↔ (bell center width).Indeterminate x := by
  rw [div_eq_undefined_iff hwidth, sub_eq_undefined_iff hx, Indeterminate]
  constructor
  · rintro ((hc | hsame) | hw | ⟨hdist, hw⟩)
    · exact .inl hc
    · exact .inr (.inr (.inl hsame))
    · exact .inr (.inl hw)
    · exact .inr (.inr (.inr ⟨hw, isInfinite_of_sub hdist⟩))
  · rintro (hc | hw | hsame | ⟨hw, hinf⟩)
    · exact .inl (.inl hc)
    · exact .inr (.inl hw)
    · exact .inl (.inr hsame)
    · by_cases hdist : x - center = undefined
      · exact .inl ((sub_eq_undefined_iff hx).1 hdist)
      · exact .inr (.inr ⟨isInfinite_sub hdist hinf, hw⟩)

end

/-! ## Slopes -/

section

variable {K : Type} [Field K] [LinearOrder K] [Exponential (Extended K)]

open Extended

theorem divide_eq_ok {x y : Extended K} (hy : y ≠ 0) : Scalar.divide x y = .ok (x / y) :=
  if_neg fun h => hy (beq_eq_true_iff.1 h).1

variable [IsStrictOrderedRing K] {a b x : Extended K}

/-- At a finite distance from the end of a finite slope. -/
theorem degreeUnless_ratio {p : Prop} {m n : K} (hp : ¬ p) (hm : 0 < m) (hlt : m < n) :
    DegreeUnless p (Scalar.divide (finite m) (finite n)) := by
  have hn : 0 < n := hm.trans hlt
  rw [divide_eq_ok (by simpa [zero_eq] using hn.ne'), finite_div_finite hn.ne']
  exact ⟨_, rfl, .inr ⟨hp, div_nonneg hm.le hn.le, (div_le_one hn).2 hlt.le⟩⟩

/-- On a slope that rises from `a` to `b`. -/
theorem degreeUnless_rise (hax : a < x) (hxb : x < b) :
    DegreeUnless (a = infinite true) (Scalar.divide (x - a) (b - a)) := by
  obtain ⟨q, rfl⟩ := exists_finite_of_lt_of_lt hax hxb
  cases a with
  | finite p =>
      cases b with
      | finite r =>
          rw [finite_lt_finite] at hax hxb
          rw [finite_sub_finite, finite_sub_finite]
          exact degreeUnless_ratio (by simp) (sub_pos.2 hax) (sub_lt_sub_right hxb p)
      | infinite t =>
          rw [finite_sub_finite, infinite_sub_finite, divide_eq_ok (by simp [zero_eq])]
          exact .zero (by simp)
      | undefined => simp at hxb
  | infinite s =>
      obtain rfl : s = true := by simpa using hax
      cases b with
      | finite r =>
          rw [finite_sub_infinite, finite_sub_infinite, divide_eq_ok (by simp [zero_eq])]
          exact .of_undefined rfl
      | infinite t =>
          obtain rfl : t = false := by simpa using hxb
          rw [finite_sub_infinite, infinite_sub_infinite, if_neg (by simp),
            divide_eq_ok (by simp [zero_eq])]
          exact .of_undefined rfl
      | undefined => simp at hxb
  | undefined => simp at hax

/-- On a slope that falls from `a` to `b`. With all signs changed it is one that rises. -/
theorem degreeUnless_fall (hax : a < x) (hxb : x < b) :
    DegreeUnless (b = infinite false) (Scalar.divide (b - x) (b - a)) := by
  have hrise := degreeUnless_rise (neg_lt_neg hxb) (neg_lt_neg hax)
  rw [neg_sub_neg_eq, neg_sub_neg_eq] at hrise
  exact hrise.congr neg_eq_infinite_iff

theorem degreeUnless_risesForever (hax : a < x) (hxb : x < b) :
    DegreeUnless (RisesForever a b x) (Scalar.divide (x - a) (b - a)) :=
  (degreeUnless_rise hax hxb).congr ⟨fun h => ⟨h, hax, hxb⟩, And.left⟩

theorem degreeUnless_fallsForever (hax : a < x) (hxb : x < b) :
    DegreeUnless (FallsForever a b x) (Scalar.divide (b - x) (b - a)) :=
  (degreeUnless_fall hax hxb).congr ⟨fun h => ⟨h, hax, hxb⟩, And.left⟩

/-! ## Piecewise linear shapes -/

theorem degreeUnless_leftShoulder (h : a < b) (hx : x ≠ undefined) :
    DegreeUnless (FallsForever a b x) ((leftShoulder a b).degree x) := by
  simp only [degree]
  split
  · next hxa => exact .one (mt And.right (not_between_of_le (.inl hxa)))
  · next hxa =>
      split
      · next hbx => exact .zero (mt And.right (not_between_of_le (.inr hbx)))
      · next hbx =>
          exact degreeUnless_fallsForever (lt_of_not_le hx (defined_of_lt h).1 hxa)
            (lt_of_not_le (defined_of_lt h).2 hx hbx)

theorem degreeUnless_rightShoulder (h : a < b) (hx : x ≠ undefined) :
    DegreeUnless (RisesForever a b x) ((rightShoulder a b).degree x) := by
  simp only [degree]
  split
  · next hbx => exact .one (mt And.right (not_between_of_le (.inr hbx)))
  · next hbx =>
      split
      · next hxa => exact .zero (mt And.right (not_between_of_le (.inl hxa)))
      · next hxa =>
          exact degreeUnless_risesForever (lt_of_not_le hx (defined_of_lt h).1 hxa)
            (lt_of_not_le (defined_of_lt h).2 hx hbx)

variable {c d : Extended K}

theorem degreeUnless_triangle (hab : a ≤ b) (hbc : b ≤ c) (hx : x ≠ undefined) :
    DegreeUnless (RisesForever a b x ∨ FallsForever b c x) ((triangle a b c).degree x) := by
  obtain ⟨ha, hb⟩ := defined_of_le hab
  obtain ⟨-, hc⟩ := defined_of_le hbc
  simp only [degree]
  split
  · next hout =>
      -- Outside of the triangle, or at a corner: no slope is met.
      have hrise : ¬ RisesForever a b x :=
        mt And.right (not_between_of_le (hout.imp_right fun hcx => le_trans hbc hcx))
      have hfall : ¬ FallsForever b c x :=
        mt And.right (not_between_of_le (hout.imp_left fun hxa => le_trans hxa hab))
      split
      · exact .one (not_or.2 ⟨hrise, hfall⟩)
      · exact .zero (not_or.2 ⟨hrise, hfall⟩)
  · next hout =>
      obtain ⟨hxa, hcx⟩ := not_or.1 hout
      have hax : a < x := lt_of_not_le hx ha hxa
      have hxc : x < c := lt_of_not_le hc hx hcx
      split
      · next heq =>
          obtain ⟨rfl, -⟩ := beq_eq_true_iff.1 heq
          exact .one (not_or.2 ⟨fun h => not_lt_self h.2.2, fun h => not_lt_self h.2.1⟩)
      · next hne =>
          split
          · next hxb =>
              -- Only the left slope is met, so the right one cannot be the reason.
              refine (degreeUnless_risesForever hax hxb).congr (iff_self_or.2 fun h => ?_)
              exact absurd (le_of_lt hxb) (not_le_of_lt h.2.1)
          · next hxb =>
              have hbx : b < x :=
                lt_of_not_lt_of_ne hx hb hxb fun heq => hne (beq_eq_true_iff.2 ⟨heq, hx⟩)
              refine (degreeUnless_fallsForever hbx hxc).congr (iff_or_self.2 fun h => ?_)
              exact absurd h.2.2 hxb

theorem degreeUnless_trapezoid (hab : a ≤ b) (hbc : b ≤ c) (hcd : c ≤ d) (hx : x ≠ undefined) :
    DegreeUnless (RisesForever a b x ∨ FallsForever c d x) ((trapezoid a b c d).degree x) := by
  obtain ⟨ha, hb⟩ := defined_of_le hab
  obtain ⟨hc, hd⟩ := defined_of_le hcd
  simp only [degree]
  split
  · next hcore =>
      have hrise : ¬ RisesForever a b x := mt And.right (not_between_of_le (.inr hcore.1))
      have hfall : ¬ FallsForever c d x := mt And.right (not_between_of_le (.inl hcore.2))
      exact .one (not_or.2 ⟨hrise, hfall⟩)
  · next hcore =>
      split
      · next hout =>
          have hrise : ¬ RisesForever a b x := mt And.right
            (not_between_of_le (hout.imp_right fun hdx => le_trans hbc (le_trans hcd hdx)))
          have hfall : ¬ FallsForever c d x := mt And.right
            (not_between_of_le (hout.imp_left fun hxa => le_trans hxa (le_trans hab hbc)))
          exact .zero (not_or.2 ⟨hrise, hfall⟩)
      · next hout =>
          obtain ⟨hxa, hdx⟩ := not_or.1 hout
          have hax : a < x := lt_of_not_le hx ha hxa
          have hxd : x < d := lt_of_not_le hd hx hdx
          split
          · next hxb =>
              refine (degreeUnless_risesForever hax hxb).congr (iff_self_or.2 fun h => ?_)
              exact absurd (le_trans (le_of_lt hxb) hbc) (not_le_of_lt h.2.1)
          · next hxb =>
              have hbx : b ≤ x := le_of_not_lt hx hb hxb
              have hcx : c < x := lt_of_not_le hx hc fun hxc => hcore ⟨hbx, hxc⟩
              refine (degreeUnless_fallsForever hcx hxd).congr (iff_or_self.2 fun h => ?_)
              exact absurd h.2.2 hxb

/-! ## The bell curve -/

/-- The exponent of a bell curve at a distance of `z` widths from its center. -/
theorem exponent_nonpos {z : Extended K} (hz : z ≠ undefined) :
    (0 - 1 / Scalar.two) * z * z ≤ 0 := by
  have htwo : (0 : K) < 1 + 1 := by positivity
  have hneg : (0 - 1 / (1 + 1) : K) < 0 := sub_neg.2 (one_div_pos.2 htwo)
  have hhalf : (0 - 1 / Scalar.two : Extended K) = finite (0 - 1 / (1 + 1)) := by
    rw [Scalar.two, one_eq, finite_add_finite, finite_div_finite htwo.ne', zero_eq,
      finite_sub_finite]
  rw [hhalf]
  cases z with
  | finite q =>
      rw [finite_mul_finite, finite_mul_finite, zero_eq, finite_le_finite, mul_assoc]
      exact mul_nonpos_of_nonpos_of_nonneg hneg.le (mul_self_nonneg q)
  | infinite s =>
      rw [finite_mul_infinite hneg.ne, infinite_mul_infinite, zero_eq, infinite_le_finite]
      simp
  | undefined => exact absurd rfl hz

theorem degreeUnless_bell (hexp : Exponential.Damped K) (hwidth : ¬ b ≤ 0) (hx : x ≠ undefined) :
    DegreeUnless ((bell a b).Indeterminate x) ((bell a b).degree x) := by
  have hb : b ≠ 0 := by
    rintro rfl
    exact hwidth (le_refl (0 : K))
  rw [← quotient_eq_undefined_iff hwidth hx, degree, divide_eq_ok hb]
  refine .clampUnit ⟨fun hz => ?_, fun hundefined => ?_⟩
  · rw [hz, mul_undefined]
    exact hexp.undefined
  · by_contra hz
    exact (defined_of_le (hexp.nonneg _ (exponent_nonpos hz))).2 hundefined

/-- **A membership function has a degree at every number, and it is in the unit interval unless the
formula of the shape has no result there.** -/
theorem degreeUnless_degree (hexp : Exponential.Damped K) {f : MembershipFunction (Extended K)}
    (hf : f.Ordered) (hx : x ≠ undefined) : DegreeUnless (f.Indeterminate x) (f.degree x) := by
  cases f with
  | triangle left peak right => exact degreeUnless_triangle hf.1 hf.2 hx
  | trapezoid left coreLeft coreRight right =>
      exact degreeUnless_trapezoid hf.1 hf.2.1 hf.2.2 hx
  | leftShoulder core foot => exact degreeUnless_leftShoulder hf hx
  | rightShoulder foot core => exact degreeUnless_rightShoulder hf hx
  | bell center width => exact degreeUnless_bell hexp hf hx

end

end MembershipFunction

/-! ## Labels -/

section

variable {K : Type} [Field K] [LinearOrder K] [Exponential (Extended K)]

open Extended MembershipFunction

/-- What an undefined input is refused for is that it is not between the ends of the range. -/
theorem LinguisticVariable.admits_iff {v : LinguisticVariable (Extended K)} {x : Extended K} :
    v.admits x = true ↔ v.lower ≤ x ∧ x ≤ v.upper := by
  rw [admits, Bool.and_eq_true, decide_eq_true_iff, and_iff_right_iff_imp]
  rintro ⟨hlower, -⟩
  simp [Scalar.isUndefined, beq_eq_true_iff, (defined_of_le hlower).2]

variable [IsStrictOrderedRing K]

/-- **A label whose parameters were accepted has a degree at every input that the variable accepts:
it is undefined where the formula of the shape has no result, and in the unit interval everywhere
else.** -/
theorem Label.degreeUnless_membership (hexp : Exponential.Damped K) {name : String}
    {params : List (Except String (Extended K))} {l : Label (Extended K)}
    (hl : MembershipFunction.make name params = .ok l.function)
    {v w : LinguisticVariable (Extended K)} {x : Extended K} (hx : v.withInput x = .ok w) :
    DegreeUnless (l.function.Indeterminate x) (l.membership x) := by
  obtain ⟨hadmits, -⟩ := LinguisticVariable.withInput_eq_ok_iff.1 hx
  have hdefined : x ≠ undefined := (defined_of_le (LinguisticVariable.admits_iff.1 hadmits).1).2
  obtain ⟨d, hd, hcases⟩ := degreeUnless_degree hexp (ordered_of_make hl) hdefined
  rw [Label.membership, hd]
  refine .clampUnit ⟨fun hp => ?_, fun hundefined => ?_⟩
  · exact (hcases.resolve_right fun h => h.1 hp).2
  · exact (hcases.resolve_right fun h => (defined_of_le h.2.1).2 hundefined).1

end

open Extended

/-- The bell curve of center zero and width one, at the upper end of a range. -/
theorem Label.degreeUnless_membership_bell :
    Exponential.Damped ℝ ∧
    MembershipFunction.make "gauss" [.ok (0 : Extended ℝ), .ok 1] = .ok (.bell 0 1) ∧
    (⟨"T", 0, 1, ∅, 0⟩ : LinguisticVariable (Extended ℝ)).withInput 1 = .ok ⟨"T", 0, 1, ∅, 1⟩ ∧
    DegreeUnless ((MembershipFunction.bell (0 : Extended ℝ) 1).Indeterminate 1)
      ((⟨0, "Warm", .bell 0 1⟩ : Label (Extended ℝ)).membership 1) := by
  have hmake : MembershipFunction.make "gauss" [.ok (0 : Extended ℝ), .ok 1] = .ok (.bell 0 1) := by
    have hname : Shape.ofName? (Text.lower "gauss") = some .bell := by decide
    have hwidth : ¬ (1 : Extended ℝ) ≤ 0 := not_le_of_gt (zero_lt_one' ℝ)
    simp only [MembershipFunction.make, hname]
    exact if_neg hwidth
  have hinput : (⟨"T", 0, 1, ∅, 0⟩ : LinguisticVariable (Extended ℝ)).withInput 1
      = .ok ⟨"T", 0, 1, ∅, 1⟩ := by
    refine LinguisticVariable.withInput_eq_ok_iff.2 ⟨?_, rfl⟩
    exact LinguisticVariable.admits_iff.2 ⟨zero_le_one, le_refl (1 : ℝ)⟩
  exact ⟨Exponential.damped_real, hmake, hinput,
    degreeUnless_membership (l := ⟨0, "Warm", .bell 0 1⟩) Exponential.damped_real
      hmake hinput⟩

/-- A bell curve with an undefined width is accepted, and its degree at an accepted input is no
number of the unit interval. -/
theorem Label.membership_undefined_width :
    MembershipFunction.make "gauss" [.ok (0 : Extended ℝ), .ok .undefined]
      = .ok (.bell 0 .undefined) ∧
    (⟨"T", 0, 1, ∅, 0⟩ : LinguisticVariable (Extended ℝ)).withInput 0 = .ok ⟨"T", 0, 1, ∅, 0⟩ ∧
    (⟨0, "Warm", .bell 0 .undefined⟩ : Label (Extended ℝ)).membership 0 = .ok .undefined ∧
    ¬ (0 ≤ (.undefined : Extended ℝ) ∧ (.undefined : Extended ℝ) ≤ 1) := by
  have hname : Shape.ofName? (Text.lower "gauss") = some .bell := by decide
  have hz : Scalar.divide (0 - 0) (undefined : Extended ℝ) = .ok undefined := by
    rw [MembershipFunction.divide_eq_ok (by simp [zero_eq]), div_undefined]
  have hadmits : (⟨"T", 0, 1, ∅, 0⟩ : LinguisticVariable (Extended ℝ)).admits 0 = true :=
    LinguisticVariable.admits_iff.2 ⟨le_refl (0 : ℝ), zero_le_one⟩
  refine ⟨?_, LinguisticVariable.withInput_eq_ok_iff.2 ⟨hadmits, rfl⟩, ?_, fun h => h.1⟩
  · simp only [MembershipFunction.make, hname]
    rfl
  · have hexponent : (0 - 1 / Scalar.two) * undefined * undefined = (undefined : Extended ℝ) :=
      mul_undefined
    rw [membership, MembershipFunction.degree, hz]
    change Except.ok (Scalar.clampUnit (Scalar.clampUnit (Scalar.exp _))) = _
    rw [hexponent]
    rfl

end FuzzyLogic
