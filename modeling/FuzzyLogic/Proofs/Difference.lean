import FuzzyLogic.Proofs.Pattern
import Mathlib.Algebra.Order.Ring.Int

set_option autoImplicit false

/-! # Differences of floating-point numbers

Rounding never turns the difference of two numbers into zero: the numbers next to zero stand as
densely as anywhere, so that a difference that is not zero is at least the least number. Therefore a
division by the difference of two corners, one below the other, always has a result. -/

namespace FuzzyLogic.Scalar

open Float.Model UnpackedFloat

/-! ## Canonical numbers -/

/-- The mantissa and the exponent of a finite number in the format: there are at most 53 bits, and
there are fewer only at the least exponent. -/
structure Canonical (m : Nat) (e : Int) : Prop where
  lt : m < 2 ^ 53
  le : -1074 ≤ e
  full : e = -1074 ∨ 2 ^ 52 ≤ m

theorem Unpacked.canonical {b : BitVec Format.binary64.numBits} {s : Sign} {m : Nat} {e : Int}
    {hm : 0 < m} (h : Unpacked b (.finite s m e hm)) : Canonical m e := by
  have hmantissa : (unpackMantissa b).toNat < 2 ^ 52 := (unpackMantissa b).isLt
  cases h with
  | least _ he _ => exact ⟨by omega, by omega, .inl he⟩
  | full hexp he hman _ => exact ⟨by omega, by omega, .inr (by omega)⟩

theorem canonical_of_unpack {b : BitVec Format.binary64.numBits} {s : Sign} {m : Nat} {e : Int}
    {hm : 0 < m} (h : UnpackedFloat.unpack Format.binary64 b = .finite s m e hm) :
    Canonical m e := by
  have hunpacked := unpacked_unpack b
  rw [h] at hunpacked
  exact hunpacked.canonical

/-- Of two canonical numbers with the same value the parts are the same. -/
theorem Canonical.eq_of_shiftLeft_eq {m n : Nat} {e f : Int} (hm : Canonical m e)
    (hn : Canonical n f)
    (h : m <<< (e - min e f).toNat = n <<< (f - min e f).toNat) : e = f ∧ m = n := by
  -- The one with the greater exponent would have more bits than there are.
  have hle {m n : Nat} {e f : Int} (hm : Canonical m e) (hn : Canonical n f)
      (h : m <<< (e - min e f).toNat = n <<< (f - min e f).toNat) : f ≤ e := by
    by_contra hlt
    obtain ⟨k, hk⟩ : ∃ k, (f - min e f).toNat = k + 1 := ⟨(f - min e f).toNat - 1, by omega⟩
    have hzero : (e - min e f).toNat = 0 := by omega
    rw [hk, hzero, Nat.shiftLeft_zero, Nat.shiftLeft_eq, Nat.pow_succ] at h
    have hfull : 2 ^ 52 ≤ n := hn.full.resolve_left (by have := hm.le; omega)
    have hmore : n * 2 ≤ n * (2 ^ k * 2) :=
      Nat.mul_le_mul_left n (Nat.le_mul_of_pos_left 2 (Nat.two_pow_pos k))
    have := hm.lt
    omega
  obtain rfl : e = f := by
    have hef := hle hm hn h
    have hfe := hle hn hm (by rw [min_comm f e]; exact h.symm)
    omega
  refine ⟨rfl, ?_⟩
  simpa using h

/-! ## Rounding -/

theorem mantissa_shiftRight (em : ExtendedMantissa) (n : Nat) :
    (em >>> n).mantissa = em.mantissa / 2 ^ n := by
  induction n with
  | zero => simp [HShiftRight.hShiftRight, Nat.repeat]
  | succ n ih =>
      have hstep : (em >>> (n + 1)).mantissa = (em >>> n).mantissa / 2 := rfl
      rw [hstep, ih, Nat.div_div_eq_div_mul, Nat.pow_succ]

theorem mantissa_ofMantissaAndAccuracy (m : Nat) (accuracy : Accuracy) :
    (ExtendedMantissa.ofMantissaAndAccuracy m accuracy).mantissa = m := by
  cases accuracy with
  | exact => rfl
  | inexact o => cases o <;> rfl

theorem le_roundedMantissa (em : ExtendedMantissa) : em.mantissa ≤ em.roundedMantissa := by
  unfold ExtendedMantissa.roundedMantissa
  cases em.accuracy with
  | exact => exact Nat.le_refl _
  | inexact o =>
      cases o with
      | lt => exact Nat.le_refl _
      | eq => exact Nat.le_add_right _ _
      | gt => exact Nat.le_succ _

theorem targetExponent_eq (t : Int) : Format.binary64.targetExponent t = max (t - 53) (-1074) :=
  rfl

/-- A positive mantissa is shifted to one that is positive and has at most 53 bits, and the exponent
does not fall below the least one. -/
theorem shiftToTargetExponent_bounds {m : Nat} {e : Int} (hm : 0 < m) (he : -1074 ≤ e)
    (accuracy : Accuracy) :
    0 < (shiftToTargetExponent Format.binary64 m e accuracy).1.mantissa ∧
      (shiftToTargetExponent Format.binary64 m e accuracy).1.mantissa < 2 ^ 53 ∧
      -1074 ≤ (shiftToTargetExponent Format.binary64 m e accuracy).2 := by
  simp only [shiftToTargetExponent, shiftToExponent, targetExponent_eq, totalExponent,
    mantissa_shiftRight, mantissa_ofMantissaAndAccuracy]
  have hlower := Nat.log2_self_le hm.ne'
  have hupper := Nat.lt_log2_self (n := m)
  have hshift : (max ((m.log2 : Int) + 1 + e - 53) (-1074) - e).toNat = m.log2 - 52 := by omega
  rw [hshift]
  refine ⟨?_, ?_, by omega⟩
  · have hle : 2 ^ (m.log2 - 52) ≤ 2 ^ m.log2 := Nat.pow_le_pow_right (by decide) (by omega)
    exact Nat.div_pos (hle.trans hlower) (Nat.two_pow_pos _)
  · rw [Nat.div_lt_iff_lt_mul (Nat.two_pow_pos _), ← Nat.pow_add]
    exact hupper.trans_le (Nat.pow_le_pow_right (by decide) (by omega))

theorem round_eq_finite (s : Sign) {m : Nat} {e : Int} (hm : 0 < m) (he : -1074 ≤ e) :
    ∃ m' e' hm', UnpackedFloat.round Format.binary64 s m e = .finite s m' e' hm' ∧
      m' < 2 ^ 53 ∧ -1074 ≤ e' := by
  have hexponent : -1074 ≤ (decreaseExponent m e
      (Format.binary64.targetExponent (totalExponent m e))).2 := by
    simp only [decreaseExponent, targetExponent_eq]
    omega
  have hmantissa : 0 < (decreaseExponent m e
      (Format.binary64.targetExponent (totalExponent m e))).1 := by
    simp only [decreaseExponent, Nat.shiftLeft_eq]
    exact Nat.mul_pos hm (Nat.two_pow_pos _)
  obtain ⟨hpos, -, hle⟩ := shiftToTargetExponent_bounds hmantissa hexponent .exact
  obtain ⟨hpos', hlt', hle'⟩ :=
    shiftToTargetExponent_bounds (hpos.trans_le (le_roundedMantissa _)) hle .exact
  exact ⟨_, _, hpos', dif_neg hpos'.ne', hlt', hle'⟩

/-! ## Packing -/

theorem bits_of_unpack_eq_zero {b : BitVec Format.binary64.numBits} {s : Sign}
    (h : UnpackedFloat.unpack Format.binary64 b = .zero s) :
    (unpackExponent b).toNat = 0 ∧ (unpackMantissa b).toNat = 0 := by
  have hunpacked := unpacked_unpack b
  rw [h] at hunpacked
  cases hunpacked with
  | zero hexp hman => exact ⟨hexp, hman⟩

/-- A positive mantissa leaves a bit, in the exponent if it is full and in the mantissa if not. -/
theorem unpack_pack_ne_zero (s t : Sign) {m : Nat} {e : Int} (hm : 0 < m) (hlt : m < 2 ^ 53)
    (hle : -1074 ≤ e) :
    UnpackedFloat.unpack Format.binary64
      (UnpackedFloat.pack Format.binary64 (.finite s m e hm)) ≠ .zero t := by
  have hbias : (Format.binary64.exponentBias : Int) = 1023 := by decide
  intro h
  obtain ⟨hexp, hman⟩ := bits_of_unpack_eq_zero h
  delta UnpackedFloat.pack at hexp hman
  dsimp only at hexp hman
  split at hexp
  · simp [packedInfinity] at hexp
  · next hfits =>
      rw [if_neg hfits] at hman
      split at hexp
      · rw [unpackExponent_packComponents, BitVec.toNat_ofNat] at hexp
        omega
      · next hfull =>
          have hbits : Format.binary64.mantissaBits = 53 := rfl
          have hlog : m.log2 < 53 := (Nat.log2_lt hm.ne').2 hlt
          have hsmall : m < 2 ^ 52 := (Nat.log2_lt hm.ne').1 (by omega)
          rw [if_neg hfull, unpackMantissa_packComponents, BitVec.toNat_ofNat,
            Nat.mod_eq_of_lt hsmall] at hman
          omega

theorem unpack_pack_infinity_ne_zero (s t : Sign) :
    UnpackedFloat.unpack Format.binary64
      (UnpackedFloat.pack Format.binary64 (.infinity s)) ≠ .zero t := by
  intro h
  obtain ⟨hexp, -⟩ := bits_of_unpack_eq_zero h
  delta UnpackedFloat.pack at hexp
  simp [packedInfinity] at hexp

/-! ## Differences -/

/-- A finite number that is not zero and not too precise for the format, or an infinity. -/
inductive AwayFromZero : UnpackedFloat → Prop
  | infinity (s : Sign) : AwayFromZero (.infinity s)
  | finite (s : Sign) {m : Nat} {e : Int} (hm : 0 < m) (hlt : m < 2 ^ 53) (hle : -1074 ≤ e) :
      AwayFromZero (.finite s m e hm)

theorem AwayFromZero.unpack_pack_ne_zero {u : UnpackedFloat} (h : AwayFromZero u) (t : Sign) :
    UnpackedFloat.unpack Format.binary64 (UnpackedFloat.pack Format.binary64 u) ≠ .zero t := by
  cases h with
  | infinity s => exact unpack_pack_infinity_ne_zero s t
  | finite s hm hlt hle => exact Scalar.unpack_pack_ne_zero s t hm hlt hle

theorem awayFromZero_round (s : Sign) {m : Nat} {e : Int} (hm : 0 < m) (he : -1074 ≤ e) :
    AwayFromZero (UnpackedFloat.round Format.binary64 s m e) := by
  obtain ⟨m', e', hm', hround, hlt, hle⟩ := round_eq_finite s hm he
  rw [hround]
  exact .finite s hm' hlt hle

theorem awayFromZero_normalize (s : Sign) {m : Int} {e : Int} (hm : m ≠ 0) (he : -1074 ≤ e) :
    AwayFromZero (UnpackedFloat.normalize Format.binary64 m e s) := by
  unfold UnpackedFloat.normalize
  split
  · next h =>
      have hneg := compare_lt_iff_lt.1 h
      exact awayFromZero_round _ (by omega) he
  · next h => exact absurd (compare_eq_iff_eq.1 h) hm
  · next h =>
      have hpos := compare_gt_iff_gt.1 h
      exact awayFromZero_round _ (by omega) he

/-- The difference of two canonical numbers is zero only if they are the same number. -/
theorem apply_sub_apply_ne_zero {s t : Sign} {m n : Nat} {e f : Int} (hm : 0 < m) (hn : 0 < n)
    (he : Canonical m e) (hf : Canonical n f)
    (hne : UnpackedFloat.finite s m e hm ≠ .finite t n f hn) :
    s.apply (m <<< (e - min e f).toNat : Nat) - t.apply (n <<< (f - min e f).toNat : Nat) ≠ 0 := by
  intro hzero
  have hmpos : 0 < m <<< (e - min e f).toNat := by
    rw [Nat.shiftLeft_eq]
    exact Nat.mul_pos hm (Nat.two_pow_pos _)
  have hnpos : 0 < n <<< (f - min e f).toNat := by
    rw [Nat.shiftLeft_eq]
    exact Nat.mul_pos hn (Nat.two_pow_pos _)
  have hsame : s = t ∧ m <<< (e - min e f).toNat = n <<< (f - min e f).toNat := by
    cases s <;> cases t <;> simp only [Sign.apply] at hzero
    · exact ⟨rfl, by omega⟩
    · omega
    · omega
    · exact ⟨rfl, by omega⟩
  obtain ⟨rfl, hshift⟩ := hsame
  obtain ⟨rfl, rfl⟩ := he.eq_of_shiftLeft_eq hf hshift
  exact hne rfl

theorem awayFromZero_sub {u v : UnpackedFloat} {i j : ℤ ×ₗ ℤ ×ₗ ℤ}
    (hu : ∀ s m e hm, u = .finite s m e hm → Canonical m e)
    (hv : ∀ s m e hm, v = .finite s m e hm → Canonical m e)
    (hi : rank u = some i) (hj : rank v = some j) (hlt : i < j) :
    AwayFromZero (UnpackedFloat.sub Format.binary64 v u) := by
  have hne : v ≠ u := by
    rintro rfl
    obtain rfl := Option.some.inj (hi.symm.trans hj)
    exact lt_irrefl i hlt
  cases u with
  | notANumber => cases hi
  | infinity s =>
      cases v with
      | notANumber => cases hj
      | infinity t =>
          cases s <;> cases t
          · exact absurd rfl hne
          · exact .infinity _
          · exact .infinity _
          · exact absurd rfl hne
      | zero t => exact .infinity _
      | finite t n f hn => exact .infinity _
  | zero s =>
      cases v with
      | notANumber => cases hj
      | infinity t => exact .infinity _
      | zero t =>
          -- The two zeros have the same rank.
          obtain rfl := Option.some.inj (hi.symm.trans hj)
          exact absurd hlt (lt_irrefl i)
      | finite t n f hn =>
          obtain ⟨hbits, hleast, -⟩ := hv t n f hn rfl
          exact .finite _ hn hbits hleast
  | finite s m e hm =>
      have hcanonical := hu s m e hm rfl
      cases v with
      | notANumber => cases hj
      | infinity t => exact .infinity _
      | zero t => exact .finite _ hm hcanonical.lt hcanonical.le
      | finite t n f hn =>
          have hcanonical' := hv t n f hn rfl
          refine awayFromZero_normalize _ ?_ (le_min hcanonical'.le hcanonical.le)
          exact apply_sub_apply_ne_zero hn hm hcanonical' hcanonical hne

theorem exists_zero_of_rank {u : UnpackedFloat} (h : rank u = some (toLex (0, toLex (0, 0)))) :
    ∃ s, u = .zero s := by
  have hkind : (rank u).map (fun i => (ofLex i).1) = some 0 := by
    rw [h]
    rfl
  cases u with
  | notANumber => cases h
  | infinity s => cases s <;> exact absurd (Option.some.inj hkind) (by decide)
  | zero s => exact ⟨s, rfl⟩
  | finite s m e hm =>
      cases s with
      | negative => exact absurd (Option.some.inj hkind : (-1 : ℤ) = 0) (by decide)
      | positive => exact absurd (Option.some.inj hkind : (1 : ℤ) = 0) (by decide)

theorem divide_eq_ok {z w : Float} (hw : ∀ s, w.toModel.unpack ≠ .zero s) :
    divide z w = .ok (z / w) := by
  refine if_neg fun hzero => ?_
  obtain ⟨i, hi, hplace⟩ := beq_iff.1 hzero
  obtain ⟨s, hs⟩ := exists_zero_of_rank (hi.trans hplace.symm)
  exact hw s hs

/-- **A division by the difference of two numbers, one below the other, has a result.** -/
theorem divide_sub_eq_ok {x y : Float} (h : x < y) (z : Float) :
    divide z (y - x) = .ok (z / (y - x)) := by
  obtain ⟨i, j, hi, hj, hlt⟩ := lt_iff.1 h
  have haway := awayFromZero_sub (fun _ _ _ _ => canonical_of_unpack)
    (fun _ _ _ _ => canonical_of_unpack) hi hj hlt
  exact divide_eq_ok haway.unpack_pack_ne_zero

/-! ## Differences that are zero -/

theorem unpack_sub (x y : Float) :
    (x - y).toModel.unpack = UnpackedFloat.unpack Format.binary64 (UnpackedFloat.pack Format.binary64
      (UnpackedFloat.sub Format.binary64 x.toModel.unpack y.toModel.unpack)) :=
  rfl

theorem unpack_pack_zero (s : Sign) :
    UnpackedFloat.unpack Format.binary64 (UnpackedFloat.pack Format.binary64 (.zero s))
      = .zero s := by
  cases s <;> rfl

theorem exists_zero_sub_zero (s t : Sign) :
    ∃ r, UnpackedFloat.sub Format.binary64 (.zero s) (.zero t) = .zero r := by
  cases s <;> cases t <;> exact ⟨_, rfl⟩

/-- Finite numbers of one rank have the difference zero. -/
theorem exists_zero_sub {u v : UnpackedFloat} {i : ℤ ×ₗ ℤ ×ₗ ℤ} (hu : rank u = some i)
    (hv : rank v = some i) (hfinite : u.isFinite = true) :
    ∃ r, UnpackedFloat.sub Format.binary64 u v = .zero r := by
  obtain rfl | rfl := eq_of_rank hu hv
  · cases u with
    | notANumber => cases hu
    | infinity s => cases hfinite
    | zero s => exact exists_zero_sub_zero s s
    | finite s m e hm =>
        refine ⟨.positive, ?_⟩
        delta UnpackedFloat.sub
        dsimp only
        rw [sub_self]
        rfl
  · obtain ⟨s, rfl⟩ := exists_zero_of_rank hu
    obtain ⟨t, rfl⟩ := exists_zero_of_rank hv
    exact exists_zero_sub_zero s t

/-- Infinite numbers of one rank have no difference. -/
theorem sub_eq_notANumber {u v : UnpackedFloat} {i : ℤ ×ₗ ℤ ×ₗ ℤ} (hu : rank u = some i)
    (hv : rank v = some i) (hinfinite : u.isFinite = false) :
    UnpackedFloat.sub Format.binary64 u v = .notANumber := by
  cases u with
  | notANumber => rfl
  | infinity s =>
      obtain rfl | rfl := eq_of_rank hu hv
      · cases s <;> rfl
      · obtain ⟨t, ht⟩ := exists_zero_of_rank hu
        cases ht
  | zero s => cases hinfinite
  | finite s m e hm => cases hinfinite

/-- **A division by the difference of two numbers, one at most the other, fails only if they are
equal** and are not infinite: the difference of equal infinities is undefined. -/
theorem divide_sub_eq_error_iff {x y : Float} (h : x ≤ y) (z : Float) :
    divide z (y - x) = .error .divisionByZero ↔ (x == y) = true ∧ y.isFinite = true := by
  constructor
  · intro hfault
    have hnot : ¬ x < y := fun hlt => by
      rw [divide_sub_eq_ok hlt] at hfault
      cases hfault
    obtain ⟨hx, hy⟩ := defined_of_le h
    have hbeq := beq_of_le_of_le h (le_of_not_lt hx hy hnot)
    refine ⟨hbeq, Bool.of_not_eq_false fun hinfinite => ?_⟩
    obtain ⟨i, hi, hj⟩ := beq_iff.1 hbeq
    have hundefined : (y - x).toModel.unpack = .notANumber := by
      rw [unpack_sub, sub_eq_notANumber hj hi hinfinite]
      rfl
    rw [divide_eq_ok fun s hs => by rw [hundefined] at hs; cases hs] at hfault
    cases hfault
  · rintro ⟨hbeq, hfinite⟩
    obtain ⟨i, hi, hj⟩ := beq_iff.1 hbeq
    obtain ⟨r, hr⟩ := exists_zero_sub hj hi hfinite
    have hzero : (y - x).toModel.unpack = .zero r := by
      rw [unpack_sub, hr, unpack_pack_zero]
    exact if_pos (beq_iff.2 ⟨zeroRank, congrArg rank hzero, rfl⟩)

end FuzzyLogic.Scalar
