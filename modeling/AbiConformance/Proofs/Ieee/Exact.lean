import AbiConformance.Ieee.Binary64
import Mathlib.Algebra.Order.Field.Rat
import Mathlib.Order.Monotone.Basic
import Mathlib.Tactic.Positivity
import Mathlib.Tactic.Ring

namespace AbiConformance.Binary64

def unitsOfOne : Nat := 2 ^ 1074

def units (magnitude : Nat) : Nat :=
  if magnitude < 2 ^ 52 then magnitude
  else (2 ^ 52 + magnitude % 2 ^ 52) * 2 ^ (magnitude / 2 ^ 52 - 1)

def signedUnits (x : Binary64) : Int :=
  if x.bits.toNat < 2 ^ 63 then units x.magnitude else -units x.magnitude

def toRat? (x : Binary64) : Option ℚ :=
  if x.magnitude < 2047 * 2 ^ 52 then some (x.signedUnits / unitsOfOne) else none

theorem unitsOfOne_pos : 0 < unitsOfOne := by
  unfold unitsOfOne
  positivity

theorem units_normal (q : Nat) {r : Nat} (hr : r < 2 ^ 52) :
    units ((q + 1) * 2 ^ 52 + r) = (2 ^ 52 + r) * 2 ^ q := by
  have hlarge : ¬(q + 1) * 2 ^ 52 + r < 2 ^ 52 := by omega
  have hdiv : ((q + 1) * 2 ^ 52 + r) / 2 ^ 52 = q + 1 := by omega
  have hmod : ((q + 1) * 2 ^ 52 + r) % 2 ^ 52 = r := by omega
  rw [units, if_neg hlarge, hdiv, hmod, Nat.add_sub_cancel]

theorem units_subnormal {m : Nat} (hm : m < 2 ^ 52) : units m = m := if_pos hm

theorem units_lt_succ (m : Nat) : units m < units (m + 1) := by
  obtain ⟨q, r, hr, rfl⟩ : ∃ q r, r < 2 ^ 52 ∧ m = q * 2 ^ 52 + r :=
    ⟨m / 2 ^ 52, m % 2 ^ 52, by omega, by omega⟩
  by_cases hcarry : r + 1 < 2 ^ 52
  · cases q with
    | zero =>
      rw [Nat.zero_mul, Nat.zero_add, units_subnormal hr, units_subnormal hcarry]
      exact Nat.lt_succ_self r
    | succ q =>
      rw [Nat.add_assoc, units_normal q hr, units_normal q hcarry]
      exact Nat.mul_lt_mul_of_pos_right (by omega) (Nat.two_pow_pos q)
  -- The fraction wraps to zero, and the exponent takes the carry.
  · have hnext : q * 2 ^ 52 + r + 1 = (q + 1) * 2 ^ 52 + 0 := by omega
    rw [hnext, units_normal q (Nat.two_pow_pos 52)]
    cases q with
    | zero =>
      rw [Nat.zero_mul, Nat.zero_add, units_subnormal hr]
      omega
    | succ q =>
      rw [units_normal q hr]
      calc (2 ^ 52 + r) * 2 ^ q
          < (2 ^ 52 + 2 ^ 52) * 2 ^ q := Nat.mul_lt_mul_of_pos_right (by omega) (Nat.two_pow_pos q)
        _ = (2 ^ 52 + 0) * 2 ^ (q + 1) := by ring

theorem units_strictMono : StrictMono units := strictMono_nat_of_lt_succ units_lt_succ

theorem natBits_eq {n : Nat} (h0 : n ≠ 0) (hn : n < 2 ^ 53) : ∃ r < 2 ^ 52,
    natBits n = (n.log2 + 1022 + 1) * 2 ^ 52 + r ∧ 2 ^ 52 + r = n * 2 ^ (52 - n.log2) := by
  have hlog : n.log2 ≤ 52 := Nat.le_of_lt_succ ((Nat.log2_lt h0).mpr hn)
  have hlow : 2 ^ 52 ≤ n * 2 ^ (52 - n.log2) := by
    calc 2 ^ 52 = 2 ^ n.log2 * 2 ^ (52 - n.log2) := by
          rw [← Nat.pow_add, Nat.add_sub_cancel' hlog]
      _ ≤ n * 2 ^ (52 - n.log2) := Nat.mul_le_mul_right _ (Nat.log2_self_le h0)
  have hhigh : n * 2 ^ (52 - n.log2) < 2 ^ 53 := by
    have htop : n.log2 + 1 + (52 - n.log2) = 53 := by omega
    calc n * 2 ^ (52 - n.log2)
        < 2 ^ (n.log2 + 1) * 2 ^ (52 - n.log2) :=
          Nat.mul_lt_mul_of_pos_right Nat.lt_log2_self (Nat.two_pow_pos _)
      _ = 2 ^ 53 := by rw [← Nat.pow_add, htop]
  refine ⟨n * 2 ^ (52 - n.log2) - 2 ^ 52, by omega, ?_, by omega⟩
  simp only [natBits, h0, hlog, if_false, if_true]
  omega

theorem units_natBits {n : Nat} (hn : n < 2 ^ 53) : units (natBits n) = n * unitsOfOne := by
  by_cases h0 : n = 0
  · subst h0
    rw [Nat.zero_mul]
    rfl
  · obtain ⟨r, hr, hbits, hsignificand⟩ := natBits_eq h0 hn
    have hlog : n.log2 ≤ 52 := Nat.le_of_lt_succ ((Nat.log2_lt h0).mpr hn)
    have hexponent : 52 - n.log2 + (n.log2 + 1022) = 1074 := by omega
    rw [hbits, units_normal _ hr, hsignificand, Nat.mul_assoc, ← Nat.pow_add, hexponent, unitsOfOne]

theorem natBits_lt {n : Nat} (hn : n < 2 ^ 53) : natBits n < 2047 * 2 ^ 52 := by
  by_cases h0 : n = 0
  · subst h0
    decide
  · obtain ⟨r, hr, hbits, -⟩ := natBits_eq h0 hn
    have hlog : n.log2 ≤ 52 := Nat.le_of_lt_succ ((Nat.log2_lt h0).mpr hn)
    omega

theorem natBits_pos {n : Nat} (h0 : n ≠ 0) : 0 < natBits n := by
  simp only [natBits, h0, if_false]
  omega

theorem bits_ofInt_natCast {n : Nat} (hn : n < 2 ^ 53) : (ofInt n).bits.toNat = natBits n := by
  have hlt := natBits_lt hn
  change (UInt64.ofNat (natBits n)).toNat = natBits n
  rw [UInt64.toNat_ofNat']
  omega

theorem bits_ofInt_neg {n : Nat} (h0 : n ≠ 0) (hn : n < 2 ^ 53) :
    (ofInt (-n)).bits.toNat = 2 ^ 63 + natBits n := by
  have hlt := natBits_lt hn
  cases n with
  | zero => exact absurd rfl h0
  | succ k =>
    change (UInt64.ofNat (2 ^ 63 + natBits (k + 1))).toNat = 2 ^ 63 + natBits (k + 1)
    rw [UInt64.toNat_ofNat']
    omega

theorem eq_iff_bits {x y : Binary64} : x = y ↔ x.bits.toNat = y.bits.toNat := by
  cases x
  cases y
  simp [UInt64.toNat_inj]

theorem eq_negZero_iff {x : Binary64} : x = negZero ↔ x.bits.toNat = 2 ^ 63 := eq_iff_bits

theorem eq_of_signedUnits {x y : Binary64} (h : x.signedUnits = y.signedUnits) (hx : x ≠ negZero)
    (hy : y ≠ negZero) : x = y := by
  have hunits : units x.magnitude = units y.magnitude → x.magnitude = y.magnitude :=
    fun h => units_strictMono.injective h
  -- Opposite signs could meet at zero only, and the negative side has given up its zero.
  have hpos : ∀ z : Binary64, z ≠ negZero → ¬z.bits.toNat < 2 ^ 63 → 0 < units z.magnitude := by
    intro z hz hsign
    rw [Ne, eq_negZero_iff] at hz
    have hlt := z.bits.toNat_lt
    have hmagnitude : 0 < z.magnitude := by
      rw [magnitude]
      omega
    exact units_subnormal (Nat.two_pow_pos 52) ▸ units_strictMono hmagnitude
  rw [eq_iff_bits]
  have hxlt := x.bits.toNat_lt
  have hylt := y.bits.toNat_lt
  simp only [signedUnits] at h
  split at h <;> split at h
  · have hmagnitude := hunits (by omega)
    simp only [magnitude] at hmagnitude
    omega
  · have := hpos y hy ‹_›
    omega
  · have := hpos x hx ‹_›
    omega
  · have hmagnitude := hunits (by omega)
    simp only [magnitude] at hmagnitude
    omega

theorem signedUnits_ofInt {n : Int} (hn : n.natAbs < 2 ^ 53) :
    (ofInt n).magnitude < 2047 * 2 ^ 52 ∧ (ofInt n).signedUnits = n * unitsOfOne ∧
      ofInt n ≠ negZero := by
  obtain ⟨k, hk⟩ := n.eq_nat_or_neg
  have hkn : k < 2 ^ 53 := by omega
  have hfinite := natBits_lt hkn
  rw [Ne, eq_negZero_iff, signedUnits, magnitude]
  by_cases hneg : n = -k ∧ k ≠ 0
  · obtain ⟨rfl, h0⟩ := hneg
    have hpos := natBits_pos h0
    have hmod : (2 ^ 63 + natBits k) % 2 ^ 63 = natBits k := by omega
    rw [bits_ofInt_neg h0 hkn, if_neg (by omega), hmod, units_natBits hkn]
    refine ⟨hfinite, ?_, by omega⟩
    push_cast
    ring
  · have hnonneg : n = k := by omega
    have hmod : natBits k % 2 ^ 63 = natBits k := by omega
    rw [hnonneg, bits_ofInt_natCast hkn, if_pos (by omega), hmod, units_natBits hkn]
    exact ⟨hfinite, by push_cast; rfl, by omega⟩

theorem toRat?_eq_some_iff {x : Binary64} {n : Int} :
    x.toRat? = some (n : ℚ) ↔ x.magnitude < 2047 * 2 ^ 52 ∧ x.signedUnits = n * unitsOfOne := by
  have hpos : (unitsOfOne : ℚ) ≠ 0 := by exact_mod_cast unitsOfOne_pos.ne'
  unfold toRat?
  split
  · rename_i hfinite
    rw [Option.some_inj, div_eq_iff hpos]
    exact ⟨fun h => ⟨hfinite, by exact_mod_cast h⟩, fun h => by exact_mod_cast h.2⟩
  · rename_i hinfinite
    exact iff_of_false (Option.some_ne_none _).symm fun h => hinfinite h.1

theorem eq_ofInt_iff {z : Binary64} {n : Int} (hn : n.natAbs < 2 ^ 53) :
    z = ofInt n ↔ z.toRat? = some (n : ℚ) ∧ z ≠ negZero := by
  obtain ⟨hfinite, hunits, hnonzero⟩ := signedUnits_ofInt hn
  rw [toRat?_eq_some_iff]
  constructor
  · rintro rfl
    exact ⟨⟨hfinite, hunits⟩, hnonzero⟩
  · rintro ⟨⟨-, hz⟩, hz0⟩
    exact eq_of_signedUnits (hz.trans hunits.symm) hz0 hnonzero

end AbiConformance.Binary64
