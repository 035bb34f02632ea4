import FuzzyLogic.Proofs.Norm

set_option autoImplicit false

/-! # Numbers with infinities

Floating-point arithmetic has, besides its numbers, two infinities and a value for operations that
have no result. Here it is on exact numbers: the special values follow the rules of floating-point
arithmetic, and nothing is rounded. An undefined number is not comparable with any number, itself
included; all other numbers are linearly ordered. -/

namespace FuzzyLogic

/-- A number, an infinity of either sign, or the result of an operation without a result. -/
inductive Extended (K : Type) where
  | finite (q : K)
  | infinite (negative : Bool)
  | undefined

namespace Extended

/-- Whether the number is an infinity. -/
def IsInfinite {K : Type} : Extended K → Prop
  | infinite _ => True
  | _ => False

/-! ## Sums and differences -/

section

variable {K : Type} [Field K]

instance : Zero (Extended K) := ⟨finite 0⟩

instance : One (Extended K) := ⟨finite 1⟩

instance : Add (Extended K) where
  add
    | finite p, finite q => finite (p + q)
    | finite _, infinite s => infinite s
    | infinite s, finite _ => infinite s
    | infinite s, infinite t => if s = t then infinite s else undefined
    | _, _ => undefined

/-- The number of the opposite sign. -/
protected def neg : Extended K → Extended K
  | finite q => finite (-q)
  | infinite s => infinite (!s)
  | undefined => undefined

instance : Sub (Extended K) := ⟨fun x y => x + y.neg⟩

variable {p q : K} {s t : Bool} {x : Extended K}

theorem zero_eq : (0 : Extended K) = finite 0 := rfl

theorem one_eq : (1 : Extended K) = finite 1 := rfl

@[simp] theorem finite_add_finite : (finite p + finite q : Extended K) = finite (p + q) := rfl

@[simp] theorem finite_sub_finite : (finite p - finite q : Extended K) = finite (p - q) :=
  congrArg finite (sub_eq_add_neg p q).symm

@[simp] theorem finite_sub_infinite : (finite p - infinite s : Extended K) = infinite (!s) := rfl

@[simp] theorem infinite_sub_finite : (infinite s - finite q : Extended K) = infinite s := rfl

@[simp] theorem infinite_sub_infinite :
    (infinite s - infinite t : Extended K) = if s = t then undefined else infinite s := by
  cases s <;> cases t <;> rfl

@[simp] theorem undefined_sub : (undefined - x : Extended K) = undefined := by
  cases x <;> rfl

@[simp] theorem sub_undefined : (x - undefined : Extended K) = undefined := by
  cases x <;> rfl

theorem neg_sub_neg_eq (x y : Extended K) : x.neg - y.neg = y - x := by
  cases x with
  | finite p =>
      cases y with
      | finite q =>
          rw [finite_sub_finite, sub_eq_neg_add]
          exact finite_sub_finite.trans (congrArg finite (sub_neg_eq_add _ _))
      | infinite t => simp [Extended.neg]
      | undefined => rfl
  | infinite s =>
      cases y with
      | finite q => rfl
      | infinite t => cases s <;> cases t <;> rfl
      | undefined => rfl
  | undefined => cases y <;> rfl

theorem neg_eq_infinite_iff : x.neg = infinite s ↔ x = infinite (!s) := by
  cases x <;> simp [Extended.neg, Bool.not_eq_eq_eq_not]

theorem sub_eq_undefined_iff {y : Extended K} (hx : x ≠ undefined) :
    x - y = undefined ↔ y = undefined ∨ x.IsInfinite ∧ x = y := by
  cases x with
  | finite p => cases y <;> simp [IsInfinite]
  | infinite s => cases y <;> simp [IsInfinite]
  | undefined => exact absurd rfl hx

theorem isInfinite_of_sub {y : Extended K} (h : (x - y).IsInfinite) :
    x.IsInfinite ∨ y.IsInfinite := by
  cases x <;> cases y <;> simp_all [IsInfinite]

theorem isInfinite_sub {y : Extended K} (hdiff : x - y ≠ undefined)
    (h : x.IsInfinite ∨ y.IsInfinite) : (x - y).IsInfinite := by
  cases x <;> cases y <;> simp_all [IsInfinite]

end

/-! ## Products and quotients -/

section

variable {K : Type} [Field K] [LinearOrder K]

/-- An infinity times a number. -/
def scaled (negative : Bool) (q : K) : Extended K :=
  if q = 0 then undefined else infinite (negative ^^ decide (q < 0))

instance : Mul (Extended K) where
  mul
    | finite p, finite q => finite (p * q)
    | finite p, infinite s => scaled s p
    | infinite s, finite q => scaled s q
    | infinite s, infinite t => infinite (s ^^ t)
    | _, _ => undefined

instance : Div (Extended K) where
  div
    | finite p, finite q =>
      if q = 0 then if p = 0 then undefined else infinite (decide (p < 0)) else finite (p / q)
    | finite _, infinite _ => finite 0
    | infinite s, finite q => infinite (s ^^ decide (q < 0))
    | _, _ => undefined

variable {p q : K} {s t : Bool} {x : Extended K}

@[simp] theorem finite_mul_finite : (finite p * finite q : Extended K) = finite (p * q) := rfl

@[simp] theorem infinite_mul_infinite :
    (infinite s * infinite t : Extended K) = infinite (s ^^ t) := rfl

theorem finite_mul_infinite (hp : p ≠ 0) :
    (finite p * infinite s : Extended K) = infinite (s ^^ decide (p < 0)) :=
  if_neg hp

@[simp] theorem mul_undefined : (x * undefined : Extended K) = undefined := by
  cases x <;> rfl

theorem finite_div_finite (hq : q ≠ 0) : (finite p / finite q : Extended K) = finite (p / q) :=
  if_neg hq

@[simp] theorem infinite_div_infinite : (infinite s / infinite t : Extended K) = undefined := rfl

@[simp] theorem undefined_div : (undefined / x : Extended K) = undefined := by
  cases x <;> rfl

@[simp] theorem div_undefined : (x / undefined : Extended K) = undefined := by
  cases x <;> rfl

end

/-! ## Comparison -/

section

variable {K : Type} [LinearOrder K]

instance : LE (Extended K) where
  le
    | finite p, finite q => p ≤ q
    | finite _, infinite s => s = false
    | infinite s, finite _ => s = true
    | infinite s, infinite t => s = true ∨ t = false
    | _, _ => False

instance : LT (Extended K) where
  lt
    | finite p, finite q => p < q
    | finite _, infinite s => s = false
    | infinite s, finite _ => s = true
    | infinite s, infinite t => s = true ∧ t = false
    | _, _ => False

instance : BEq (Extended K) where
  beq
    | finite p, finite q => decide (p = q)
    | infinite s, infinite t => s == t
    | _, _ => false

instance : DecidableLE (Extended K)
  | finite p, finite q => inferInstanceAs (Decidable (p ≤ q))
  | finite _, infinite s => inferInstanceAs (Decidable (s = false))
  | infinite s, finite _ => inferInstanceAs (Decidable (s = true))
  | infinite s, infinite t => inferInstanceAs (Decidable (s = true ∨ t = false))
  | undefined, _ => .isFalse id
  | finite _, undefined => .isFalse id
  | infinite _, undefined => .isFalse id

instance : DecidableLT (Extended K)
  | finite p, finite q => inferInstanceAs (Decidable (p < q))
  | finite _, infinite s => inferInstanceAs (Decidable (s = false))
  | infinite s, finite _ => inferInstanceAs (Decidable (s = true))
  | infinite s, infinite t => inferInstanceAs (Decidable (s = true ∧ t = false))
  | undefined, _ => .isFalse id
  | finite _, undefined => .isFalse id
  | infinite _, undefined => .isFalse id

variable {p q : K} {s t : Bool} {x y : Extended K}

@[simp] theorem finite_le_finite : (finite p : Extended K) ≤ finite q ↔ p ≤ q := .rfl

@[simp] theorem finite_le_infinite : (finite p : Extended K) ≤ infinite s ↔ s = false := .rfl

@[simp] theorem infinite_le_finite : (infinite s : Extended K) ≤ finite q ↔ s = true := .rfl

@[simp] theorem infinite_le_infinite :
    (infinite s : Extended K) ≤ infinite t ↔ s = true ∨ t = false := .rfl

@[simp] theorem not_undefined_le : ¬ (undefined : Extended K) ≤ x := by
  cases x <;> exact id

@[simp] theorem not_le_undefined : ¬ x ≤ (undefined : Extended K) := by
  cases x <;> exact id

@[simp] theorem finite_lt_finite : (finite p : Extended K) < finite q ↔ p < q := .rfl

@[simp] theorem finite_lt_infinite : (finite p : Extended K) < infinite s ↔ s = false := .rfl

@[simp] theorem infinite_lt_finite : (infinite s : Extended K) < finite q ↔ s = true := .rfl

@[simp] theorem infinite_lt_infinite :
    (infinite s : Extended K) < infinite t ↔ s = true ∧ t = false := .rfl

@[simp] theorem not_undefined_lt : ¬ (undefined : Extended K) < x := by
  cases x <;> exact id

@[simp] theorem not_lt_undefined : ¬ x < (undefined : Extended K) := by
  cases x <;> exact id

/-- Only an undefined number differs from itself. -/
theorem beq_eq_true_iff : (x == y) = true ↔ x = y ∧ x ≠ undefined := by
  cases x <;> cases y <;> simp [BEq.beq]

theorem defined_of_le (h : x ≤ y) : x ≠ undefined ∧ y ≠ undefined := by
  constructor <;> rintro rfl <;> simp at h

theorem defined_of_lt (h : x < y) : x ≠ undefined ∧ y ≠ undefined := by
  constructor <;> rintro rfl <;> simp at h

theorem exists_finite_of_lt_of_lt {z : Extended K} (hxy : x < y) (hyz : y < z) :
    ∃ q, y = finite q := by
  cases y with
  | finite q => exact ⟨q, rfl⟩
  | infinite s => cases x <;> cases z <;> simp_all
  | undefined => simp at hxy

theorem not_le_of_lt (h : x < y) : ¬ y ≤ x := by
  cases x <;> cases y <;> simp_all

theorem lt_of_not_le (hx : x ≠ undefined) (hy : y ≠ undefined) (h : ¬ x ≤ y) : y < x := by
  cases x <;> cases y <;> simp_all

theorem not_lt_self : ¬ x < x := by
  cases x <;> simp

theorem le_of_lt (h : x < y) : x ≤ y := by
  cases x <;> cases y <;> simp_all
  exact h.le

theorem le_trans {z : Extended K} (hxy : x ≤ y) (hyz : y ≤ z) : x ≤ z := by
  cases y with
  | finite q =>
      cases x <;> cases z <;> simp_all
      exact hxy.trans hyz
  | infinite s => cases x <;> cases z <;> cases s <;> simp_all
  | undefined => simp at hxy

theorem le_of_not_lt (hx : x ≠ undefined) (hy : y ≠ undefined) (h : ¬ x < y) : y ≤ x := by
  cases x with
  | finite p => cases y <;> simp_all
  | infinite s => cases y <;> cases s <;> simp_all
  | undefined => exact absurd rfl hx

theorem lt_of_not_lt_of_ne (hx : x ≠ undefined) (hy : y ≠ undefined) (h : ¬ x < y) (hne : x ≠ y) :
    y < x := by
  cases x with
  | finite p =>
      cases y with
      | finite q => exact (not_lt.1 h).lt_of_ne fun heq => hne (congrArg finite heq.symm)
      | infinite t => simpa using h
      | undefined => exact absurd rfl hy
  | infinite s =>
      cases y with
      | finite q => simpa using h
      | infinite t => cases s <;> cases t <;> simp_all
      | undefined => exact absurd rfl hy
  | undefined => exact absurd rfl hx

end

section

variable {K : Type} [Field K] [LinearOrder K] {x y : Extended K}

theorem neg_lt_neg [IsStrictOrderedRing K] (h : x < y) : y.neg < x.neg := by
  cases x <;> cases y <;> simp_all [Extended.neg]

theorem div_eq_undefined_iff (hy : ¬ y ≤ 0) :
    x / y = undefined ↔ x = undefined ∨ y = undefined ∨ x.IsInfinite ∧ y.IsInfinite := by
  cases y with
  | finite q =>
      have hq : q ≠ 0 := fun h => hy h.le
      cases x <;> simp [IsInfinite, finite_div_finite hq]
  | infinite s => cases x <;> simp [IsInfinite]
  | undefined => simp

end

/-! ## Scalars -/

section

variable {K : Type} [Field K] [LinearOrder K]

theorem zero_le_one [IsStrictOrderedRing K] : (0 : Extended K) ≤ 1 := zero_le_one' K

variable [Exponential (Extended K)]

/-- The extended numbers as scalars, for any exponential function on them. -/
instance : Scalar (Extended K) where
  exp := Exponential.exp

theorem clampUnit_undefined : Scalar.clampUnit (undefined : Extended K) = undefined := rfl

theorem clampUnit_mem [IsStrictOrderedRing K] {x : Extended K} (hx : x ≠ undefined) :
    0 ≤ Scalar.clampUnit x ∧ Scalar.clampUnit x ≤ 1 := by
  unfold Scalar.clampUnit
  split
  · exact ⟨le_refl (0 : K), zero_le_one⟩
  · next hzero =>
      split
      · exact ⟨zero_le_one, le_refl (1 : K)⟩
      · next hone =>
          have hpos : 0 < x := lt_of_not_le hx (by simp [zero_eq]) hzero
          have hlt : x < 1 := lt_of_not_le (by simp [one_eq]) hx hone
          exact ⟨le_of_lt hpos, le_of_lt hlt⟩

end

end Extended

end FuzzyLogic
