import FuzzyLogic.Proofs.Membership

set_option autoImplicit false

/-! # Outlines

In exact arithmetic a piecewise linear membership function is the lesser of two edges: one that
rises from zero to one on the left of the core, and one that falls from one to zero on its right. A
shoulder has only one of them. An edge may be vertical, and then no slope is met. Everything that is
known of such a function (where it is zero, where it is one, that it has no dent) is known of its
edges, and a falling edge is a rising one seen in a mirror. -/

namespace FuzzyLogic

open Set

/-! ## Extents -/

namespace Extent

variable {K : Type} [LinearOrder K]

/-- The numbers that do not lie below the extent. -/
def onwards (e : Extent K) : Set K :=
  {x | ∀ l ∈ e.lower, l ≤ x}

/-- The numbers that do not lie above the extent. -/
def upTo (e : Extent K) : Set K :=
  {x | ∀ u ∈ e.upper, x ≤ u}

/-- The numbers above the lower end. -/
def above (e : Extent K) : Set K :=
  {x | ∀ l ∈ e.lower, l < x}

/-- The numbers below the upper end. -/
def below (e : Extent K) : Set K :=
  {x | ∀ u ∈ e.upper, x < u}

variable {l u : K} {o : Option K}

@[simp] theorem onwards_some : (⟨some l, o⟩ : Extent K).onwards = Ici l := by
  simp [onwards, Ici]

@[simp] theorem onwards_none : (⟨none, o⟩ : Extent K).onwards = univ := by
  simp [onwards]

@[simp] theorem upTo_some : (⟨o, some u⟩ : Extent K).upTo = Iic u := by
  simp [upTo, Iic]

@[simp] theorem upTo_none : (⟨o, none⟩ : Extent K).upTo = univ := by
  simp [upTo]

@[simp] theorem above_some : (⟨some l, o⟩ : Extent K).above = Ioi l := by
  simp [above, Ioi]

@[simp] theorem above_none : (⟨none, o⟩ : Extent K).above = univ := by
  simp [above]

@[simp] theorem below_some : (⟨o, some u⟩ : Extent K).below = Iio u := by
  simp [below, Iio]

@[simp] theorem below_none : (⟨o, none⟩ : Extent K).below = univ := by
  simp [below]

end Extent

/-! ## Outlines -/

section

variable {K : Type} [Field K] [LinearOrder K]

/-- A function to the unit interval that is one exactly on `core`, zero outside of `support` and
positive on `inside`. -/
structure Graded (core support inside : Set K) (mu : K → K) : Prop where
  mem : ∀ x, mu x ∈ Icc 0 1
  eq_one_iff : ∀ x, mu x = 1 ↔ x ∈ core
  eq_zero : ∀ x, x ∉ support → mu x = 0
  pos : ∀ x ∈ inside, 0 < mu x

/-- A function that is one exactly on its core, zero outside of its support and positive inside it,
and that rises up to its core and falls behind it, so that it has no dent. -/
structure Outlined (core support : Extent K) (mu : K → K) : Prop extends
    Graded (core.onwards ∩ core.upTo) (support.onwards ∩ support.upTo)
      (support.above ∩ support.below) mu where
  monotoneOn : MonotoneOn mu core.upTo
  antitoneOn : AntitoneOn mu core.onwards
  min_le : ∀ x y z, x ≤ y → y ≤ z → min (mu x) (mu z) ≤ mu y

/-- The lesser of two functions is one where both are, and zero where one of them is. -/
theorem Graded.lesser {core support inside core' support' inside' : Set K} {f g : K → K}
    (hf : Graded core support inside f) (hg : Graded core' support' inside' g) :
    Graded (core ∩ core') (support ∩ support') (inside ∩ inside') fun x => min (f x) (g x) where
  mem x := ⟨le_min (hf.mem x).1 (hg.mem x).1, (min_le_left _ _).trans (hf.mem x).2⟩
  eq_one_iff x := by
    rw [mem_inter_iff, ← hf.eq_one_iff, ← hg.eq_one_iff]
    constructor
    · intro h
      exact ⟨(hf.mem x).2.antisymm (h ▸ min_le_left _ _),
        (hg.mem x).2.antisymm (h ▸ min_le_right _ _)⟩
    · rintro ⟨hfx, hgx⟩
      rw [hfx, hgx, min_self]
  eq_zero x hx := by
    obtain hx | hx := not_and_or.1 hx
    · rw [hf.eq_zero x hx, min_eq_left (hg.mem x).1]
    · rw [hg.eq_zero x hx, min_eq_right (hf.mem x).1]
  pos x hx := lt_min (hf.pos x hx.1) (hg.pos x hx.2)

/-- An edge that rises and one that falls make an outline: up to the core only the one counts, and
behind it only the other. -/
theorem Outlined.of_edges {core support : Extent K} {f g : K → K}
    (hf : Graded core.onwards support.onwards support.above f) (hmono : Monotone f)
    (hg : Graded core.upTo support.upTo support.below g) (hanti : Antitone g) :
    Outlined core support fun x => min (f x) (g x) where
  toGraded := hf.lesser hg
  monotoneOn := by
    intro x hx y hy hxy
    change min (f x) (g x) ≤ min (f y) (g y)
    rw [(hg.eq_one_iff x).2 hx, (hg.eq_one_iff y).2 hy]
    exact min_le_min_right 1 (hmono hxy)
  antitoneOn := by
    intro x hx y hy hxy
    change min (f y) (g y) ≤ min (f x) (g x)
    rw [(hf.eq_one_iff x).2 hx, (hf.eq_one_iff y).2 hy]
    exact min_le_min_left 1 (hanti hxy)
  min_le x y z hxy hyz := by
    have hleft : min (f x) (g x) ≤ f y := (min_le_left _ _).trans (hmono hxy)
    have hright : min (f z) (g z) ≤ g y := (min_le_right _ _).trans (hanti hyz)
    exact le_min ((min_le_left _ _).trans hleft) ((min_le_right _ _).trans hright)

theorem Graded.one [IsStrictOrderedRing K] : Graded univ univ univ fun _ : K => (1 : K) where
  mem _ := right_mem_Icc.2 zero_le_one
  eq_one_iff _ := by simp
  eq_zero x hx := absurd (mem_univ x) hx
  pos _ _ := zero_lt_one

end

/-! ## Edges -/

section

variable {K : Type} [Field K] [LinearOrder K]

/-- An edge that rises from zero at `foot` to one at `top`. -/
def rise (foot top x : K) : K :=
  if top ≤ x then 1 else if x ≤ foot then 0 else (x - foot) / (top - foot)

/-- An edge that falls from one at `top` to zero at `foot`. -/
def fall (top foot x : K) : K :=
  rise (-foot) (-top) (-x)

variable {a b x y : K}

theorem rise_eq_one (h : b ≤ x) : rise a b x = 1 :=
  if_pos h

theorem rise_eq_zero (hxa : x ≤ a) (hxb : x < b) : rise a b x = 0 := by
  rw [rise, if_neg (not_le.2 hxb), if_pos hxa]

theorem rise_eq_div (hax : a < x) (hxb : x < b) : rise a b x = (x - a) / (b - a) := by
  rw [rise, if_neg (not_le.2 hxb), if_neg (not_le.2 hax)]

variable [IsStrictOrderedRing K]

theorem rise_mem (a b x : K) : rise a b x ∈ Icc (0 : K) 1 := by
  unfold rise
  split
  · exact right_mem_Icc.2 zero_le_one
  · next hxb =>
      split
      · exact left_mem_Icc.2 zero_le_one
      · next hxa =>
          have hx : 0 ≤ x - a := sub_nonneg.2 (not_le.1 hxa).le
          have hle : x - a ≤ b - a := sub_le_sub_right (not_le.1 hxb).le a
          exact ⟨div_nonneg hx (hx.trans hle), div_le_one_of_le₀ hle (hx.trans hle)⟩

theorem rise_pos (h : a < x) : 0 < rise a b x := by
  obtain hbx | hxb := le_or_gt b x
  · rw [rise_eq_one hbx]
    exact zero_lt_one
  · rw [rise_eq_div h hxb]
    exact div_pos (sub_pos.2 h) (sub_pos.2 (h.trans hxb))

theorem rise_eq_one_iff : rise a b x = 1 ↔ b ≤ x := by
  refine ⟨fun h => not_lt.1 fun hxb => ?_, rise_eq_one⟩
  obtain hxa | hax := le_or_gt x a
  · exact zero_ne_one ((rise_eq_zero hxa hxb).symm.trans h)
  · rw [rise_eq_div hax hxb, div_eq_one_iff_eq (sub_pos.2 (hax.trans hxb)).ne'] at h
    exact hxb.ne (sub_left_inj.1 h)

theorem rise_monotone (a b : K) : Monotone (rise a b) := by
  intro x y hxy
  obtain hby | hyb := le_or_gt b y
  · rw [rise_eq_one hby]
    exact (rise_mem a b x).2
  obtain hxa | hax := le_or_gt x a
  · rw [rise_eq_zero hxa (hxy.trans_lt hyb)]
    exact (rise_mem a b y).1
  · have hwidth : 0 ≤ b - a := sub_nonneg.2 (hax.le.trans (hxy.trans hyb.le))
    rw [rise_eq_div hax (hxy.trans_lt hyb), rise_eq_div (hax.trans_le hxy) hyb]
    exact div_le_div_of_nonneg_right (sub_le_sub_right hxy a) hwidth

/-- The ends of an edge may coincide. -/
theorem graded_rise (h : a ≤ b) : Graded (Ici b) (Ici a) (Ioi a) (rise a b) where
  mem := rise_mem a b
  eq_one_iff _ := rise_eq_one_iff
  eq_zero _ hx := rise_eq_zero (not_le.1 hx).le ((not_le.1 hx).trans_le h)
  pos _ := rise_pos

theorem fall_eq_one (h : x ≤ a) : fall a b x = 1 :=
  rise_eq_one (neg_le_neg h)

theorem fall_eq_zero (hbx : b ≤ x) (hax : a < x) : fall a b x = 0 :=
  rise_eq_zero (neg_le_neg hbx) (neg_lt_neg hax)

theorem fall_eq_div (hax : a < x) (hxb : x < b) : fall a b x = (b - x) / (b - a) := by
  rw [fall, rise_eq_div (neg_lt_neg hxb) (neg_lt_neg hax), neg_sub_neg, neg_sub_neg]

theorem fall_mem (a b x : K) : fall a b x ∈ Icc (0 : K) 1 :=
  rise_mem (-b) (-a) (-x)

theorem fall_antitone (a b : K) : Antitone (fall a b) :=
  fun _ _ hxy => rise_monotone (-b) (-a) (neg_le_neg hxy)

theorem graded_fall (h : a ≤ b) : Graded (Iic a) (Iic b) (Iio b) (fall a b) where
  mem := fall_mem a b
  eq_one_iff _ := rise_eq_one_iff.trans neg_le_neg_iff
  eq_zero _ hx := fall_eq_zero (not_le.1 hx).le (h.trans_lt (not_le.1 hx))
  pos _ hx := rise_pos (neg_lt_neg hx)

variable [Exponential K]

/-- Below the top of an edge there are two cases, and where a slope is met it has a width. -/
theorem ite_divide_eq_rise (hxb : x < b) :
    (if x ≤ a then .ok 0 else Scalar.divide (x - a) (b - a)) = Except.ok (rise a b x) := by
  split
  · next hxa => rw [rise_eq_zero hxa hxb]
  · next hxa =>
      have hax := not_le.1 hxa
      rw [rise_eq_div hax hxb]
      exact Scalar.divide_eq _ (sub_pos.2 (hax.trans hxb)).ne'

theorem ite_divide_eq_fall (hax : a < x) :
    (if b ≤ x then .ok 0 else Scalar.divide (b - x) (b - a)) = Except.ok (fall a b x) := by
  split
  · next hbx => rw [fall_eq_zero hbx hax]
  · next hbx =>
      have hxb := not_le.1 hbx
      rw [fall_eq_div hax hxb]
      exact Scalar.divide_eq _ (sub_pos.2 (hax.trans hxb)).ne'

end

namespace MembershipFunction

/-! ## The edges of a membership function -/

section

variable {α : Type}

/-- Whether the function consists of straight pieces. -/
def IsPiecewiseLinear : MembershipFunction α → Prop
  | bell .. => False
  | _ => True

/-- The numbers whose degree is one. -/
def core : MembershipFunction α → Extent α
  | triangle _ peak _ => ⟨some peak, some peak⟩
  | trapezoid _ coreLeft coreRight _ => ⟨some coreLeft, some coreRight⟩
  | leftShoulder core _ => ⟨none, some core⟩
  | rightShoulder _ core => ⟨some core, none⟩
  | bell center _ => ⟨some center, some center⟩

end

section

variable {K : Type} [Field K] [LinearOrder K]

/-- The edge on the left of the core: one everywhere if there is none. -/
def leftEdge : MembershipFunction K → K → K
  | triangle left peak _ => rise left peak
  | trapezoid left coreLeft _ _ => rise left coreLeft
  | rightShoulder foot core => rise foot core
  | leftShoulder .. | bell .. => fun _ => 1

/-- The edge on the right of the core. -/
def rightEdge : MembershipFunction K → K → K
  | triangle _ peak right => fall peak right
  | trapezoid _ _ coreRight right => fall coreRight right
  | leftShoulder core foot => fall core foot
  | rightShoulder .. | bell .. => fun _ => 1

/-- The lesser of the two edges. -/
def outline (f : MembershipFunction K) (x : K) : K :=
  min (f.leftEdge x) (f.rightEdge x)

variable [IsStrictOrderedRing K]

theorem leftEdge_monotone (f : MembershipFunction K) : Monotone f.leftEdge := by
  cases f with
  | triangle left peak _ => exact rise_monotone left peak
  | trapezoid left coreLeft _ _ => exact rise_monotone left coreLeft
  | rightShoulder foot core => exact rise_monotone foot core
  | leftShoulder => exact monotone_const
  | bell => exact monotone_const

theorem rightEdge_antitone (f : MembershipFunction K) : Antitone f.rightEdge := by
  cases f with
  | triangle _ peak right => exact fall_antitone peak right
  | trapezoid _ _ coreRight right => exact fall_antitone coreRight right
  | leftShoulder core foot => exact fall_antitone core foot
  | rightShoulder => exact antitone_const
  | bell => exact antitone_const

variable [Exponential K] {f : MembershipFunction K}

theorem graded_leftEdge (hf : f.Ordered) (hlinear : f.IsPiecewiseLinear) :
    Graded f.core.onwards f.support.onwards f.support.above f.leftEdge := by
  cases f with
  | triangle => simpa [core, support, leftEdge] using graded_rise hf.1
  | trapezoid => simpa [core, support, leftEdge] using graded_rise hf.1
  | rightShoulder => simpa [core, support, leftEdge] using graded_rise hf.le
  | leftShoulder => simpa [core, support, leftEdge] using Graded.one
  | bell => exact hlinear.elim

theorem graded_rightEdge (hf : f.Ordered) (hlinear : f.IsPiecewiseLinear) :
    Graded f.core.upTo f.support.upTo f.support.below f.rightEdge := by
  cases f with
  | triangle => simpa [core, support, rightEdge] using graded_fall hf.2
  | trapezoid => simpa [core, support, rightEdge] using graded_fall hf.2.2
  | leftShoulder => simpa [core, support, rightEdge] using graded_fall hf.le
  | rightShoulder => simpa [core, support, rightEdge] using Graded.one
  | bell => exact hlinear.elim

theorem outlined_outline (hf : f.Ordered) (hlinear : f.IsPiecewiseLinear) :
    Outlined f.core f.support f.outline :=
  .of_edges (graded_leftEdge hf hlinear) f.leftEdge_monotone (graded_rightEdge hf hlinear)
    f.rightEdge_antitone

/-! ## Degrees -/

variable {a b c d : K}

theorem degree_leftShoulder (x : K) : (leftShoulder b c).degree x = .ok (fall b c x) := by
  rw [degree]
  split
  · next hxb => rw [fall_eq_one hxb]
  · next hxb => exact ite_divide_eq_fall (not_le.1 hxb)

theorem degree_rightShoulder (x : K) : (rightShoulder a b).degree x = .ok (rise a b x) := by
  rw [degree]
  split
  · next hbx => rw [rise_eq_one hbx]
  · next hbx => exact ite_divide_eq_rise (not_le.1 hbx)

theorem degree_triangle (hab : a ≤ b) (hbc : b ≤ c) (x : K) :
    (triangle a b c).degree x = .ok (min (rise a b x) (fall b c x)) := by
  obtain hxb | rfl | hbx := lt_trichotomy x b
  · have hcx : ¬ c ≤ x := not_le.2 (hxb.trans_le hbc)
    rw [fall_eq_one hxb.le, min_eq_left (rise_mem a b x).2]
    simp only [degree, hcx, or_false, beq_iff_eq, hxb.ne, if_false, hxb, if_true]
    exact ite_divide_eq_rise hxb
  · rw [rise_eq_one le_rfl, fall_eq_one le_rfl, min_self]
    simp [degree]
  · have hxa : ¬ x ≤ a := not_le.2 (hab.trans_lt hbx)
    rw [rise_eq_one hbx.le, min_eq_right (fall_mem b c x).2]
    simp only [degree, hxa, false_or, beq_iff_eq, hbx.ne', if_false, not_lt.2 hbx.le]
    exact ite_divide_eq_fall hbx

theorem degree_trapezoid (hab : a ≤ b) (hbc : b ≤ c) (hcd : c ≤ d) (x : K) :
    (trapezoid a b c d).degree x = .ok (min (rise a b x) (fall c d x)) := by
  obtain hxb | hbx := lt_or_ge x b
  · have hdx : ¬ d ≤ x := not_le.2 (hxb.trans_le (hbc.trans hcd))
    rw [fall_eq_one (hxb.le.trans hbc), min_eq_left (rise_mem a b x).2]
    simp only [degree, not_le.2 hxb, false_and, if_false, hdx, or_false, hxb, if_true]
    exact ite_divide_eq_rise hxb
  rw [rise_eq_one hbx, min_eq_right (fall_mem c d x).2]
  obtain hxc | hcx := le_or_gt x c
  · rw [fall_eq_one hxc]
    exact if_pos ⟨hbx, hxc⟩
  · have hxa : ¬ x ≤ a := not_le.2 ((hab.trans hbc).trans_lt hcx)
    simp only [degree, hbx, not_le.2 hcx, and_false, if_false, hxa, false_or, not_lt.2 hbx]
    exact ite_divide_eq_fall hcx

/-- Whatever branch is taken, the degree is the lesser of the two edges. -/
theorem degree_eq_outline (hf : f.Ordered) (hlinear : f.IsPiecewiseLinear) (x : K) :
    f.degree x = .ok (f.outline x) := by
  cases f with
  | triangle left peak right => exact degree_triangle hf.1 hf.2 x
  | trapezoid left coreLeft coreRight right => exact degree_trapezoid hf.1 hf.2.1 hf.2.2 x
  | leftShoulder core foot =>
      rw [degree_leftShoulder]
      exact congrArg Except.ok (min_eq_right (fall_mem core foot x).2).symm
  | rightShoulder foot core =>
      rw [degree_rightShoulder]
      exact congrArg Except.ok (min_eq_left (rise_mem foot core x).2).symm
  | bell center width => exact hlinear.elim

end

end MembershipFunction

/-! ## Labels -/

section

variable {K : Type} [Field K] [LinearOrder K] [Exponential K]

/-- A degree is not changed by being moved into the unit interval. -/
theorem Scalar.clampUnit_eq_self {y : K} (h : y ∈ Icc (0 : K) 1) : clampUnit y = y := by
  unfold clampUnit
  split
  · next hzero => exact h.1.antisymm hzero
  · split
    · next hone => exact hone.antisymm h.2
    · rfl

variable [IsStrictOrderedRing K]

/-- **A label of one of the four piecewise linear shapes has a degree everywhere, and the degrees
have the outline that the parameters tell.** They are degrees without being moved into the unit
interval. -/
theorem Label.outlined_membership {name : String} {params : List (Except String K)} {l : Label K}
    (hl : MembershipFunction.make name params = .ok l.function)
    (hlinear : l.function.IsPiecewiseLinear) :
    ∃ mu : K → K,
      (∀ x, l.function.degree x = .ok (mu x) ∧ l.membership x = .ok (mu x)) ∧
        Outlined l.function.core l.function.support mu := by
  have hordered := MembershipFunction.ordered_of_make hl
  have houtlined := MembershipFunction.outlined_outline hordered hlinear
  refine ⟨l.function.outline, fun x => ?_, houtlined⟩
  have hdegree := MembershipFunction.degree_eq_outline hordered hlinear x
  refine ⟨hdegree, ?_⟩
  rw [membership, hdegree]
  exact congrArg Except.ok (Scalar.clampUnit_eq_self (houtlined.mem x))

end

/-- A triangle whose left edge is vertical. -/
theorem Label.outlined_membership_vertical :
    letI : Exponential ℚ := ⟨fun q => q⟩
    MembershipFunction.make "tri" [.ok (0 : ℚ), .ok 0, .ok 2] = .ok (.triangle 0 0 2) ∧
    (MembershipFunction.triangle (0 : ℚ) 0 2).IsPiecewiseLinear ∧
    ∃ mu : ℚ → ℚ,
      (∀ x, (MembershipFunction.triangle 0 0 2).degree x = .ok (mu x) ∧
        (⟨0, "Low", .triangle 0 0 2⟩ : Label ℚ).membership x = .ok (mu x)) ∧
        Outlined ⟨some 0, some 0⟩ ⟨some 0, some 2⟩ mu := by
  let _ : Exponential ℚ := ⟨fun q => q⟩
  have hmake : MembershipFunction.make "tri" [.ok (0 : ℚ), .ok 0, .ok 2]
      = .ok (.triangle 0 0 2) :=
    MembershipFunction.make_triangle (le_refl (0 : ℚ)) (zero_le_two (α := ℚ))
  exact ⟨hmake, trivial, outlined_membership (l := ⟨0, "Low", .triangle 0 0 2⟩) hmake trivial⟩

end FuzzyLogic
