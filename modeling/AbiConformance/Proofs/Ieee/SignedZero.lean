import AbiConformance.Ieee.Binary32
import Mathlib

-- The round trip of packing is in a module that nothing smaller than the whole library imports.

namespace AbiConformance

namespace Rounding

open Float.Model (Format UnpackedFloat totalExponent)
open Float.Model.UnpackedFloat

variable {spec : Format}

def FitsFormat (spec : Format) : UnpackedFloat → Prop
  | .finite _ m e _ => m < 2 ^ spec.mantissaBits ∧ spec.minExponent ≤ e
  | _ => True

theorem mantissa_shiftRight (em : ExtendedMantissa) (k : Nat) :
    (em >>> k).mantissa = em.mantissa / 2 ^ k := by
  induction k with
  | zero => exact (Nat.div_one _).symm
  | succ k ih =>
    calc (em >>> (k + 1)).mantissa = (em >>> k).mantissa / 2 := rfl
      _ = em.mantissa / 2 ^ (k + 1) := by rw [ih, Nat.div_div_eq_div_mul, Nat.pow_succ]

theorem mantissa_ofMantissaAndAccuracy (m : Nat) (accuracy : Accuracy) :
    (ExtendedMantissa.ofMantissaAndAccuracy m accuracy).mantissa = m := by
  unfold ExtendedMantissa.ofMantissaAndAccuracy
  split <;> rfl

theorem mantissa_le_roundedMantissa (em : ExtendedMantissa) :
    em.mantissa ≤ em.roundedMantissa := by
  unfold ExtendedMantissa.roundedMantissa Accuracy.roundToNearestEven
  split <;> omega

theorem mantissaBits_pos (spec : Format) : 0 < spec.mantissaBits := by
  unfold Format.mantissaBits
  omega

theorem shiftToTargetExponent_fits {m : Nat} {e : Int} (accuracy : Accuracy) (hm : 0 < m)
    (he : spec.minExponent ≤ e) :
    0 < (shiftToTargetExponent spec m e accuracy).1.mantissa ∧
      (shiftToTargetExponent spec m e accuracy).1.mantissa < 2 ^ spec.mantissaBits ∧
      spec.minExponent ≤ (shiftToTargetExponent spec m e accuracy).2 := by
  have hbits := mantissaBits_pos spec
  simp only [shiftToTargetExponent, shiftToExponent, mantissa_shiftRight,
    mantissa_ofMantissaAndAccuracy, Format.targetExponent, totalExponent]
  generalize hk : (max ((m.log2 : Int) + 1 + e - spec.mantissaBits) spec.minExponent - e).toNat = k
  have hlow : k ≤ m.log2 := by omega
  have hhigh : m.log2 + 1 ≤ spec.mantissaBits + k := by omega
  refine ⟨?_, ?_, by omega⟩
  · apply Nat.div_pos _ (Nat.two_pow_pos k)
    calc 2 ^ k ≤ 2 ^ m.log2 := Nat.pow_le_pow_right Nat.two_pos hlow
      _ ≤ m := Nat.log2_self_le hm.ne'
  · apply Nat.div_lt_of_lt_mul
    calc m < 2 ^ (m.log2 + 1) := Nat.lt_log2_self
      _ ≤ 2 ^ (spec.mantissaBits + k) := Nat.pow_le_pow_right Nat.two_pos hhigh
      _ = 2 ^ k * 2 ^ spec.mantissaBits := by rw [Nat.pow_add, Nat.mul_comm]

theorem roundWithAccuracy_fits {m : Nat} {e : Int} (s : Sign) (accuracy : Accuracy) (hm : 0 < m)
    (he : spec.minExponent ≤ e) :
    FitsFormat spec (roundWithAccuracy spec s m e accuracy) ∧
      ∀ s', roundWithAccuracy spec s m e accuracy ≠ .zero s' := by
  obtain ⟨hpos, -, hexponent⟩ := shiftToTargetExponent_fits accuracy hm he
  have hrounded := hpos.trans_le (mantissa_le_roundedMantissa _)
  -- Rounding up may carry into one bit more, which the second shift drops.
  obtain ⟨hpos', hlt, hexponent'⟩ := shiftToTargetExponent_fits .exact hrounded hexponent
  simp only [roundWithAccuracy, dif_neg hpos'.ne']
  exact ⟨⟨hlt, hexponent'⟩, nofun⟩

theorem round_fits {m : Nat} {e : Int} (s : Sign) (hm : 0 < m) (he : spec.minExponent ≤ e) :
    FitsFormat spec (UnpackedFloat.round spec s m e) ∧
      ∀ s', UnpackedFloat.round spec s m e ≠ .zero s' := by
  simp only [UnpackedFloat.round, decreaseExponent]
  apply roundWithAccuracy_fits
  · rw [Nat.shiftLeft_eq]
    exact Nat.mul_pos hm (Nat.two_pow_pos _)
  · have htarget := Int.le_max_right (totalExponent m e - spec.mantissaBits) spec.minExponent
    rw [Format.targetExponent]
    omega

theorem minExponent_eq (spec : Format) : spec.minExponent =
    1 - (spec.exponentBias + spec.mantissaBitsWithoutImplicit : Int) := by
  have hpos := Nat.two_pow_pos (spec.exponentBits - 1)
  unfold Format.minExponent Format.exponentBias Format.mantissaBits
  push_cast [Nat.cast_sub hpos]
  omega

theorem fits_unpack (b : BitVec spec.numBits) : FitsFormat spec (unpack spec b) := by
  have hexponent := minExponent_eq spec
  simp only [unpack]
  split
  · split <;> trivial
  split
  · split
    · trivial
    · rename_i hsubnormal _
      have hlt : (unpackMantissa b).toNat < 2 ^ spec.mantissaBits :=
        (unpackMantissa b).isLt.trans (Nat.pow_lt_pow_right Nat.one_lt_two (by
          unfold Format.mantissaBits
          omega))
      refine ⟨hlt, ?_⟩
      simp only [hsubnormal, BitVec.toNat_ofNat, Nat.zero_mod]
      omega
  · rename_i hnormal
    have hpos : (unpackExponent b).toNat ≠ 0 := fun h => hnormal (BitVec.eq_of_toNat_eq h)
    refine ⟨(1#1 ++ unpackMantissa b).isLt, ?_⟩
    omega

theorem packComponents_eq_packedZero {s s' : Sign} {e : BitVec spec.exponentBits}
    {m : BitVec spec.mantissaBitsWithoutImplicit}
    (h : packComponents spec s e m = packedZero spec s') : s = s' ∧ e = 0 ∧ m = 0 := by
  have hsign := congrArg (fun b => Sign.ofBitVec (unpackSign b)) h
  have hexponent := congrArg unpackExponent h
  have hmantissa := congrArg unpackMantissa h
  simp only [packedZero, unpackSign_packComponents, Sign.ofBitVec_toBitVec] at hsign
  simp only [packedZero, unpackExponent_packComponents] at hexponent
  simp only [packedZero, unpackMantissa_packComponents] at hmantissa
  exact ⟨hsign, hexponent, hmantissa⟩

theorem packComponents_allOnes_ne_packedZero (s s' : Sign)
    (m : BitVec spec.mantissaBitsWithoutImplicit) :
    packComponents spec s (-1#_) m ≠ packedZero spec s' := by
  intro h
  obtain ⟨-, hzero, -⟩ := packComponents_eq_packedZero h
  exact Nat.ne_of_gt spec.he (BitVec.zero_eq_neg_one_iff.mp hzero.symm)

theorem pack_eq_packedZero {u : UnpackedFloat} {s : Sign} (hu : FitsFormat spec u)
    (h : pack spec u = packedZero spec s) : u = .zero s := by
  cases u with
  | notANumber => exact absurd h (packComponents_allOnes_ne_packedZero _ _ _)
  | infinity => exact absurd h (packComponents_allOnes_ne_packedZero _ _ _)
  | zero =>
    obtain ⟨rfl, -⟩ := packComponents_eq_packedZero h
    rfl
  | finite s' m e hm =>
    obtain ⟨hlt, hexponent⟩ := hu
    have hleast := minExponent_eq spec
    simp only [pack] at h
    -- The fields of an overflow are all ones, those of a normal number have a positive exponent,
    -- and a subnormal number keeps its mantissa whole.
    split at h
    · exact absurd h (packComponents_allOnes_ne_packedZero _ _ _)
    split at h
    · obtain ⟨-, hbiased, -⟩ := packComponents_eq_packedZero h
      have hzero := congrArg BitVec.toNat hbiased
      rw [BitVec.toNat_ofNat, Nat.mod_eq_of_lt (by omega)] at hzero
      simp only [BitVec.ofNat_eq_ofNat, BitVec.toNat_ofNat, Nat.zero_mod] at hzero
      omega
    · rename_i hsubnormal
      obtain ⟨-, -, hmantissa⟩ := packComponents_eq_packedZero h
      have hbits := (Nat.log2_lt hm.ne').mpr hlt
      have hlt' : m < 2 ^ spec.mantissaBitsWithoutImplicit := by
        rw [← Nat.log2_lt hm.ne']
        unfold Format.mantissaBits at hbits hsubnormal
        omega
      have hzero := congrArg BitVec.toNat hmantissa
      rw [BitVec.toNat_ofNat, Nat.mod_eq_of_lt hlt'] at hzero
      exact absurd hzero hm.ne'

theorem normalize_fits {e : Int} (n : Int) (he : spec.minExponent ≤ e) :
    FitsFormat spec (UnpackedFloat.normalize spec n e .positive) ∧
      UnpackedFloat.normalize spec n e .positive ≠ .zero .negative := by
  unfold UnpackedFloat.normalize
  split
  · rename_i hlt
    have hneg := Int.compare_eq_lt.mp hlt
    obtain ⟨hfits, hnonzero⟩ := round_fits .negative (by omega : 0 < (-n).toNat) he
    exact ⟨hfits, hnonzero .negative⟩
  · exact ⟨trivial, nofun⟩
  · rename_i hgt
    have hpos := Int.compare_eq_gt.mp hgt
    obtain ⟨hfits, hnonzero⟩ := round_fits .positive (by omega : 0 < n.toNat) he
    exact ⟨hfits, hnonzero .negative⟩

theorem add_fits {u v : UnpackedFloat} (hu : FitsFormat spec u) (hv : FitsFormat spec v) :
    FitsFormat spec (add spec u v) ∧
      (add spec u v = .zero .negative → u = .zero .negative ∧ v = .zero .negative) := by
  fun_cases UnpackedFloat.add with
  | case1 | case2 | case3 | case4 | case5 | case6 | case8 => exact ⟨trivial, nofun⟩
  | case7 s s' hsign =>
    obtain rfl := eq_of_beq hsign
    exact ⟨trivial, fun h => ⟨h, h⟩⟩
  | case9 _ _ _ _ hnonzero => exact ⟨hv, fun h => (hnonzero _ h).elim⟩
  | case10 _ _ _ _ hnonzero => exact ⟨hu, fun h => (hnonzero _ h).elim⟩
  -- Two numbers: their exact sum is a multiple of the smaller unit, and only then rounded.
  | case11 =>
    obtain ⟨hfits, hnonzero⟩ := normalize_fits _ (Int.le_min.mpr ⟨hu.2, hv.2⟩)
    exact ⟨hfits, fun h => (hnonzero h).elim⟩

section Packed

variable {b c : BitVec spec.numBits} {s : Sign}

theorem packedNaN_ne_packedZero : packedNaN spec ≠ packedZero spec s :=
  packComponents_allOnes_ne_packedZero _ _ _

theorem eq_packedZero_of_unpack (hspec : 2 ≤ spec.exponentBits) (h : unpack spec b = .zero s) :
    b = packedZero spec s := by
  have hpack := pack_unpack b hspec
  rw [h] at hpack
  split at hpack
  · exact absurd hpack.symm packedNaN_ne_packedZero
  · exact hpack.symm

theorem eq_packedZero_of_pack_unpack (hspec : 2 ≤ spec.exponentBits)
    (h : pack spec (unpack spec b) = packedZero spec s) : b = packedZero spec s :=
  eq_packedZero_of_unpack hspec (pack_eq_packedZero (fits_unpack b) h)

def roundedSum (spec : Format) (b c : BitVec spec.numBits) : BitVec spec.numBits :=
  pack spec (add spec (unpack spec (pack spec (unpack spec b)))
    (unpack spec (pack spec (unpack spec c))))

theorem roundedSum_eq_negZero (hspec : 2 ≤ spec.exponentBits)
    (h : roundedSum spec b c = packedZero spec .negative) :
    b = packedZero spec .negative ∧ c = packedZero spec .negative := by
  obtain ⟨hfits, hzeros⟩ := add_fits (fits_unpack (pack spec (unpack spec b)))
    (fits_unpack (pack spec (unpack spec c)))
  obtain ⟨hb, hc⟩ := hzeros (pack_eq_packedZero hfits h)
  exact ⟨eq_packedZero_of_pack_unpack hspec (eq_packedZero_of_unpack hspec hb),
    eq_packedZero_of_pack_unpack hspec (eq_packedZero_of_unpack hspec hc)⟩

end Packed

end Rounding

open Float.Model (Format)
open Rounding

/-- Numbers that are the patterns of a format. A sum has its quiet bit set, as every NaN that an
operation returns, or it is the rounded one. -/
class Patterned (α : Type) [Add α] where
  format : Format
  two_le_exponentBits : 2 ≤ format.exponentBits
  pattern : α → BitVec format.numBits
  pattern_injective : Function.Injective pattern
  negZero : α
  pattern_negZero : pattern negZero = Float.Model.UnpackedFloat.packedZero format .negative
  negZero_add_negZero : negZero + negZero = negZero
  quietBit : Nat
  quietBit_negZero : (pattern negZero).getLsbD quietBit = false
  pattern_add : ∀ x y, (pattern (x + y)).getLsbD quietBit = true ∨
    pattern (x + y) = roundedSum format (pattern x) (pattern y)

namespace Patterned

variable {α : Type} [Add α] [Patterned α]

theorem add_eq_negZero_iff {x y : α} : x + y = negZero ↔ x = negZero ∧ y = negZero := by
  constructor
  · intro h
    have hsum := (pattern_add x y).resolve_left (by
      rw [h, quietBit_negZero]
      exact Bool.false_ne_true)
    rw [h, pattern_negZero] at hsum
    obtain ⟨hx, hy⟩ := roundedSum_eq_negZero two_le_exponentBits hsum.symm
    rw [← pattern_negZero] at hx hy
    exact ⟨pattern_injective hx, pattern_injective hy⟩
  · rintro ⟨rfl, rfl⟩
    exact negZero_add_negZero

end Patterned

theorem Binary32.quietBit_quiet (x : Binary32) : x.quiet.bits.toBitVec.getLsbD 22 = true := by
  rw [quiet, UInt32.toBitVec_or, BitVec.getLsbD_or, Bool.or_eq_true]
  exact Or.inr (by decide)

instance : Patterned Binary32 where
  format := .binary32
  two_le_exponentBits := by decide
  pattern x := x.bits.toBitVec
  pattern_injective _ _ h := congrArg Binary32.mk (UInt32.toBitVec_inj.mp h)
  negZero := .negZero
  pattern_negZero := by decide
  negZero_add_negZero := by decide
  quietBit := 22
  quietBit_negZero := by decide
  pattern_add x y := by
    change (Binary32.add x y).bits.toBitVec.getLsbD 22 = true ∨ (Binary32.add x y).bits.toBitVec = _
    unfold Binary32.add Binary32.ofFloat32
    split
    · exact Or.inl x.quietBit_quiet
    split
    · exact Or.inl y.quietBit_quiet
    split
    · exact Or.inl (by decide)
    · exact Or.inr rfl

theorem Binary64.quietBit_quiet (x : Binary64) : x.quiet.bits.toBitVec.getLsbD 51 = true := by
  rw [quiet, UInt64.toBitVec_or, BitVec.getLsbD_or, Bool.or_eq_true]
  exact Or.inr (by decide)

instance : Patterned Binary64 where
  format := .binary64
  two_le_exponentBits := by decide
  pattern x := x.bits.toBitVec
  pattern_injective _ _ h := congrArg Binary64.mk (UInt64.toBitVec_inj.mp h)
  negZero := .negZero
  pattern_negZero := by decide
  negZero_add_negZero := by decide
  quietBit := 51
  quietBit_negZero := by decide
  pattern_add x y := by
    change (Binary64.add x y).bits.toBitVec.getLsbD 51 = true ∨ (Binary64.add x y).bits.toBitVec = _
    unfold Binary64.add Binary64.lift Binary64.ofFloat
    split
    · exact Or.inl x.quietBit_quiet
    split
    · exact Or.inl y.quietBit_quiet
    split
    · exact Or.inl (by decide)
    · exact Or.inr rfl

end AbiConformance
