import FuzzyLogic.Proofs.Scalar
import Mathlib.Algebra.Order.Ring.Int

set_option autoImplicit false

/-! # Bit patterns of floating-point numbers

A floating-point number is a pattern of bits with three parts: the sign, the exponent and the
mantissa. The parts can be read off the number that the pattern stands for, and so no two patterns
stand for one number. Numbers that compare as equal are therefore the same number, except that there
are two zeros. -/

namespace FuzzyLogic.Scalar

open Float.Model UnpackedFloat

/-! ## The parts of a pattern -/

theorem ofBitVec_injective {s t : BitVec 1} (h : Sign.ofBitVec s = Sign.ofBitVec t) : s = t := by
  obtain rfl | rfl := BitVec.eq_zero_or_eq_one s
  · obtain rfl | rfl := BitVec.eq_zero_or_eq_one t
    · rfl
    · cases h
  · obtain rfl | rfl := BitVec.eq_zero_or_eq_one t
    · cases h
    · rfl

/-- A pattern has no bits but those of its three parts. -/
theorem eq_of_parts {b b' : BitVec Format.binary64.numBits}
    (hsign : Sign.ofBitVec (unpackSign b) = Sign.ofBitVec (unpackSign b'))
    (hexp : (unpackExponent b).toNat = (unpackExponent b').toNat)
    (hman : (unpackMantissa b).toNat = (unpackMantissa b').toNat) : b = b' := by
  have hbit := congrArg BitVec.toNat (ofBitVec_injective hsign)
  change BitVec 64 at b b'
  apply BitVec.eq_of_toNat_eq
  delta unpackSign at hbit
  simp only [unpackExponent, unpackMantissa, Format.binary64, BitVec.toNat_cast,
    BitVec.extractLsb_toNat, Nat.shiftRight_eq_div_pow] at hbit hexp hman
  have hlt := b.isLt
  have hlt' := b'.isLt
  omega

/-- What a pattern stands for: without an exponent it is a zero or a number of the least exponent,
with the greatest exponent it is an infinity or undefined, and else the mantissa has one bit more
than there is room for. -/
inductive Unpacked (b : BitVec Format.binary64.numBits) : UnpackedFloat → Prop
  | infinity (hexp : (unpackExponent b).toNat = 2047) (hman : (unpackMantissa b).toNat = 0) :
      Unpacked b (.infinity (.ofBitVec (unpackSign b)))
  | notANumber : Unpacked b .notANumber
  | zero (hexp : (unpackExponent b).toNat = 0) (hman : (unpackMantissa b).toNat = 0) :
      Unpacked b (.zero (.ofBitVec (unpackSign b)))
  | least (hexp : (unpackExponent b).toNat = 0) {e : Int} (he : e = -1074)
      (hm : 0 < (unpackMantissa b).toNat) :
      Unpacked b (.finite (.ofBitVec (unpackSign b)) (unpackMantissa b).toNat e hm)
  | full {m : Nat} {e : Int} (hexp : (unpackExponent b).toNat ≠ 0)
      (he : e = ((unpackExponent b).toNat : Int) - 1075)
      (hman : m = 2 ^ 52 + (unpackMantissa b).toNat) (hm : 0 < m) :
      Unpacked b (.finite (.ofBitVec (unpackSign b)) m e hm)

theorem unpacked_unpack (b : BitVec Format.binary64.numBits) :
    Unpacked b (UnpackedFloat.unpack Format.binary64 b) := by
  have hbias : (Format.binary64.exponentBias : Int) = 1023 := by decide
  have hwidth : (Format.binary64.mantissaBitsWithoutImplicit : Int) = 52 := rfl
  delta UnpackedFloat.unpack
  dsimp only
  by_cases htop : unpackExponent b = -1#_
  · rw [if_pos htop]
    by_cases hman : unpackMantissa b = 0#_
    · rw [if_pos hman]
      exact .infinity (congrArg BitVec.toNat htop) (congrArg BitVec.toNat hman)
    · rw [if_neg hman]
      exact .notANumber
  rw [if_neg htop]
  by_cases hexp : unpackExponent b = 0#_
  · have hzero : (unpackExponent b).toNat = 0 := congrArg BitVec.toNat hexp
    rw [if_pos hexp]
    by_cases hman : unpackMantissa b = 0#_
    · rw [dif_pos hman]
      exact .zero hzero (congrArg BitVec.toNat hman)
    · rw [dif_neg hman]
      exact .least hzero (by omega) _
  · have hpos : (unpackExponent b).toNat ≠ 0 := fun hzero => hexp (BitVec.eq_of_toNat_eq hzero)
    have hfull : (1#1 ++ unpackMantissa b).toNat = 2 ^ 52 + (unpackMantissa b).toNat := by
      rw [BitVec.toNat_append, ← Nat.shiftLeft_add_eq_or_of_lt (unpackMantissa b).isLt]
      rfl
    rw [if_neg hexp]
    exact .full hpos (by omega) hfull _

/-- Two patterns that stand for one number are the same. -/
theorem Unpacked.eq {b b' : BitVec Format.binary64.numBits} {u u' : UnpackedFloat}
    (h : Unpacked b u) (h' : Unpacked b' u') (hu : u = u') (hnumber : u ≠ .notANumber) :
    b = b' := by
  have hlt : (unpackMantissa b).toNat < 2 ^ 52 := (unpackMantissa b).isLt
  have hlt' : (unpackMantissa b').toNat < 2 ^ 52 := (unpackMantissa b').isLt
  cases h with
  | infinity hexp hman =>
      cases h' with
      | infinity hexp' hman' =>
          exact eq_of_parts (UnpackedFloat.infinity.inj hu) (by omega) (by omega)
      | _ => cases hu
  | notANumber => exact absurd rfl hnumber
  | zero hexp hman =>
      cases h' with
      | zero hexp' hman' => exact eq_of_parts (UnpackedFloat.zero.inj hu) (by omega) (by omega)
      | _ => cases hu
  | least hexp _ _ =>
      cases h' with
      | least hexp' _ _ =>
          obtain ⟨hsign, hman, -⟩ := UnpackedFloat.finite.inj hu
          exact eq_of_parts hsign (by omega) hman
      | full _ _ hman' _ =>
          -- The one mantissa is too short for the other number.
          obtain ⟨-, hman, -⟩ := UnpackedFloat.finite.inj hu
          omega
      | _ => cases hu
  | full _ he hman _ =>
      cases h' with
      | least _ _ _ =>
          obtain ⟨-, hman', -⟩ := UnpackedFloat.finite.inj hu
          omega
      | full _ he' hman' _ =>
          obtain ⟨hsign, hm, he''⟩ := UnpackedFloat.finite.inj hu
          exact eq_of_parts hsign (by omega) (by omega)
      | _ => cases hu

/-! ## Equal numbers -/

theorem triple_inj {a b c a' b' c' : ℤ}
    (h : toLex (a, toLex (b, c)) = toLex (a', toLex (b', c'))) : a = a' ∧ b = b' ∧ c = c' := by
  have houter := Prod.ext_iff.1 (toLex.injective h)
  have hinner := Prod.ext_iff.1 (toLex.injective houter.2)
  exact ⟨houter.1, hinner.1, hinner.2⟩

/-- The rank of both zeros. -/
def zeroRank : ℤ ×ₗ ℤ ×ₗ ℤ :=
  toLex (0, toLex (0, 0))

/-- Numbers of one rank are the same number, unless they are zeros. -/
theorem eq_of_rank {u v : UnpackedFloat} {i : ℤ ×ₗ ℤ ×ₗ ℤ} (hu : rank u = some i)
    (hv : rank v = some i) : u = v ∨ i = zeroRank := by
  have h : rank u = rank v := hu.trans hv.symm
  cases u with
  | notANumber => cases hu
  | zero s => exact .inr (Option.some.inj hu).symm
  | infinity s =>
      cases v with
      | notANumber => cases hv
      | zero t => exact .inr (Option.some.inj hv).symm
      | infinity t =>
          left
          cases s <;> cases t
          · rfl
          · exact absurd (triple_inj (Option.some.inj h)).1 (by decide)
          · exact absurd (triple_inj (Option.some.inj h)).1 (by decide)
          · rfl
      | finite t n f hn =>
          cases s <;> cases t <;> exact absurd (triple_inj (Option.some.inj h)).1 (by decide)
  | finite s m e hm =>
      cases v with
      | notANumber => cases hv
      | zero t => exact .inr (Option.some.inj hv).symm
      | infinity t =>
          cases s <;> cases t <;> exact absurd (triple_inj (Option.some.inj h)).1 (by decide)
      | finite t n f hn =>
          have hparts : s = t ∧ m = n ∧ e = f := by
            cases s <;> cases t
            · obtain ⟨-, hexp, hman⟩ := triple_inj (Option.some.inj h)
              exact ⟨rfl, by omega, by omega⟩
            · exact absurd (triple_inj (Option.some.inj h)).1 (by decide)
            · exact absurd (triple_inj (Option.some.inj h)).1 (by decide)
            · obtain ⟨-, hexp, hman⟩ := triple_inj (Option.some.inj h)
              exact ⟨rfl, by omega, by omega⟩
          obtain ⟨rfl, rfl, rfl⟩ := hparts
          exact .inl rfl

/-- The numbers are the same, or both are zeros. -/
def Same (x y : Float) : Prop :=
  x = y ∨ (x == 0) = true ∧ (y == 0) = true

theorem Same.refl (x : Float) : Same x x :=
  .inl rfl

/-- **Numbers that compare as equal are the same number, unless they are zeros.** -/
theorem same_of_beq {x y : Float} (h : (x == y) = true) : Same x y := by
  obtain ⟨i, hx, hy⟩ := beq_iff.1 h
  obtain hsame | rfl := eq_of_rank hx hy
  · left
    have hnumber : x.toModel.unpack ≠ .notANumber := by
      intro hnot
      rw [place, hnot] at hx
      cases hx
    have hbits := (unpacked_unpack _).eq (unpacked_unpack _) hsame hnumber
    obtain ⟨⟨⟨bits⟩, _⟩⟩ := x
    obtain ⟨⟨⟨bits'⟩, _⟩⟩ := y
    obtain rfl : bits = bits' := hbits
    rfl
  · exact .inr ⟨beq_iff.2 ⟨zeroRank, hx, rfl⟩, beq_iff.2 ⟨zeroRank, hy, rfl⟩⟩

end FuzzyLogic.Scalar
