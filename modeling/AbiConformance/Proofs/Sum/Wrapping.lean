import AbiConformance.Accumulation
import Mathlib.Data.Int.ModEq
import Mathlib.Algebra.Order.GroupWithZero.Basic
import Mathlib.Algebra.Order.Ring.Int
import Mathlib.Algebra.BigOperators.Group.List.Basic

namespace AbiConformance

open Integral

def FitsIn (bits : Nat) (n : Int) : Prop := -2 ^ bits ≤ 2 * n ∧ 2 * n < 2 ^ bits

instance (bits : Nat) (n : Int) : Decidable (FitsIn bits n) :=
  inferInstanceAs (Decidable (_ ∧ _))

theorem fitsIn_succ {bits : Nat} {n : Int} (hl : -2 ^ bits ≤ n) (hu : n < 2 ^ bits) :
    FitsIn (bits + 1) n := by
  have hpow := pow_succ (2 : Int) bits
  constructor <;> omega

theorem FitsIn.eq_of_modEq {bits : Nat} {a b : Int} (ha : FitsIn bits a) (hb : FitsIn bits b)
    (h : a ≡ b [ZMOD 2 ^ bits]) : a = b := by
  obtain ⟨ha1, ha2⟩ := ha
  obtain ⟨hb1, hb2⟩ := hb
  have hdvd : (2 ^ bits : Int) ∣ b - a := h.dvd
  have hlt : |b - a| < 2 ^ bits := abs_lt.mpr ⟨by omega, by omega⟩
  have hzero := Int.eq_zero_of_abs_lt_dvd hdvd hlt
  omega

class Wrapping (α : Type) [Accumulator α] [Integral α] where
  bits : Nat
  bits_le : bits ≤ 64
  toInt_fitsIn : ∀ x : α, FitsIn bits (toInt x)
  toInt_injective : ∀ x y : α, toInt x = toInt y → x = y
  toInt_zero : toInt (Accumulator.zero : α) = 0
  toInt_add : ∀ x y : α, toInt (Accumulator.add x y) = (toInt x + toInt y).bmod (2 ^ bits)

class SignExtending (α : Type) {β : Type} [Integral α] [Integral β] [Widening α β] : Prop where
  toInt_widen : ∀ x : α, toInt (Widening.widen x) = toInt x

instance : Wrapping Int8 where
  bits := 8
  bits_le := by decide
  toInt_fitsIn x := fitsIn_succ x.le_toInt x.toInt_lt
  toInt_injective _ _ := Int8.toInt_inj.mp
  toInt_zero := rfl
  toInt_add := Int8.toInt_add

instance : Wrapping Int16 where
  bits := 16
  bits_le := by decide
  toInt_fitsIn x := fitsIn_succ x.le_toInt x.toInt_lt
  toInt_injective _ _ := Int16.toInt_inj.mp
  toInt_zero := rfl
  toInt_add := Int16.toInt_add

instance : Wrapping Int32 where
  bits := 32
  bits_le := by decide
  toInt_fitsIn x := fitsIn_succ x.le_toInt x.toInt_lt
  toInt_injective _ _ := Int32.toInt_inj.mp
  toInt_zero := rfl
  toInt_add := Int32.toInt_add

instance : Wrapping Int64 where
  bits := 64
  bits_le := by decide
  toInt_fitsIn x := fitsIn_succ x.le_toInt x.toInt_lt
  toInt_injective _ _ := Int64.toInt_inj.mp
  toInt_zero := rfl
  toInt_add := Int64.toInt_add

instance : SignExtending Int8 := ⟨Int8.toInt_toInt32⟩

instance : SignExtending Int16 := ⟨Int16.toInt_toInt32⟩

instance : SignExtending Int32 := ⟨fun _ => rfl⟩

instance : SignExtending Int64 := ⟨fun _ => rfl⟩

section Exact

variable {α : Type} [Integral α]

theorem exactSum_eq_sum_map (xs : List α) : exactSum xs = (xs.map toInt).sum := by
  rw [List.sum_eq_foldl, List.foldl_map]
  rfl

@[simp] theorem exactSum_nil : exactSum ([] : List α) = 0 := rfl

@[simp] theorem exactSum_cons (x : α) (xs : List α) :
    exactSum (x :: xs) = toInt x + exactSum xs := by
  simp only [exactSum_eq_sum_map, List.map_cons, List.sum_cons]

theorem exactSum_map_widen {β : Type} [Integral β] [Widening α β] [SignExtending α] (xs : List α) :
    exactSum (xs.map Widening.widen) = exactSum xs := by
  induction xs with
  | nil => rfl
  | cons x xs ih => simp only [List.map_cons, exactSum_cons, ih, SignExtending.toInt_widen]

end Exact

theorem sumWide_eq_sum_map {α β : Type} [Accumulator β] [Widening α β] (xs : List α) :
    (sumWide xs : β) = sum (xs.map Widening.widen) :=
  List.foldl_map.symm

section Residue

variable {α : Type} [Accumulator α] [Integral α] [Wrapping α]

open Wrapping

/-- Among the values of its type, `x` alone is congruent to `n` at their width. -/
def Represents (x : α) (n : Int) : Prop :=
  ∀ y : α, y = x ↔ toInt y ≡ n [ZMOD 2 ^ bits α]

theorem represents_of_modEq {x : α} {n : Int} (h : toInt x ≡ n [ZMOD 2 ^ bits α]) :
    Represents x n := by
  intro y
  constructor
  · rintro rfl
    exact h
  · intro hy
    exact toInt_injective y x ((toInt_fitsIn y).eq_of_modEq (toInt_fitsIn x) (hy.trans h.symm))

theorem Represents.modEq {x : α} {n : Int} (h : Represents x n) :
    toInt x ≡ n [ZMOD 2 ^ bits α] :=
  (h x).mp rfl

theorem Represents.eq {x y : α} {n : Int} (hx : Represents x n) (hy : Represents y n) : x = y :=
  (hy x).mpr hx.modEq

theorem toInt_add_modEq (x y : α) :
    toInt (Accumulator.add x y) ≡ toInt x + toInt y [ZMOD 2 ^ bits α] := by
  have hbmod := Int.bmod_emod (x := toInt x + toInt y) (m := 2 ^ bits α)
  rw [toInt_add]
  simpa [Int.ModEq] using hbmod

theorem toInt_sumFrom_modEq (start : α) (xs : List α) :
    toInt (sumFrom start xs) ≡ toInt start + exactSum xs [ZMOD 2 ^ bits α] := by
  induction xs generalizing start with
  | nil => simp [Int.ModEq.refl]
  | cons x xs ih =>
    calc toInt (sumFrom (Accumulator.add start x) xs)
        ≡ toInt (Accumulator.add start x) + exactSum xs [ZMOD 2 ^ bits α] := ih _
      _ ≡ (toInt start + toInt x) + exactSum xs [ZMOD 2 ^ bits α] :=
        (toInt_add_modEq start x).add_right _
      _ = toInt start + exactSum (x :: xs) := by rw [exactSum_cons, Int.add_assoc]

theorem toInt_sum_modEq (xs : List α) : toInt (sum xs) ≡ exactSum xs [ZMOD 2 ^ bits α] := by
  have h := toInt_sumFrom_modEq (Accumulator.zero : α) xs
  rwa [toInt_zero, Int.zero_add] at h

theorem represents_sum (xs : List α) : Represents (sum xs) (exactSum xs) :=
  represents_of_modEq (toInt_sum_modEq xs)

theorem represents_sumWide {γ : Type} [Integral γ] [Widening γ α] [SignExtending γ]
    (xs : List γ) : Represents (sumWide xs : α) (exactSum xs) := by
  rw [sumWide_eq_sum_map, ← exactSum_map_widen xs]
  exact represents_sum _

end Residue

section Checked

variable {α : Type} [Integral α]

def checkedSumFrom (start : Int) (xs : List α) : Option Int :=
  xs.foldlM (fun total x =>
    if FitsIn 128 (total + toInt x) then some (total + toInt x) else none) start

def checkedSum (xs : List α) : Option Int := checkedSumFrom 0 xs

theorem checkedSumFrom_eq_some [Accumulator α] [Wrapping α] {start : Int} {xs : List α}
    (h : start.natAbs + xs.length * 2 ^ 63 < 2 ^ 127) :
    checkedSumFrom start xs = some (start + exactSum xs) := by
  induction xs generalizing start with
  | nil => simp [checkedSumFrom]
  | cons x xs ih =>
    have hx : (toInt x).natAbs ≤ 2 ^ 63 := by
      obtain ⟨hl, hu⟩ := Wrapping.toInt_fitsIn x
      have hpow : (2 : Int) ^ Wrapping.bits α ≤ 2 ^ 64 :=
        pow_le_pow_right₀ (by decide) Wrapping.bits_le
      omega
    have htail : (start + toInt x).natAbs + xs.length * 2 ^ 63 < 2 ^ 127 := by
      rw [List.length_cons] at h
      omega
    have hfits : FitsIn 128 (start + toInt x) := by
      constructor <;> omega
    calc checkedSumFrom start (x :: xs)
        = checkedSumFrom (start + toInt x) xs := by
          simp only [checkedSumFrom, List.foldlM_cons, if_pos hfits, Option.bind_eq_bind,
            Option.bind_some]
      _ = some (start + exactSum (x :: xs)) := by rw [ih htail, exactSum_cons, Int.add_assoc]

theorem checkedSum_eq_some [Accumulator α] [Wrapping α] {xs : List α}
    (h : xs.length < 2 ^ 63) : checkedSum xs = some (exactSum xs) := by
  have hsum : checkedSumFrom 0 xs = some (0 + exactSum xs) := checkedSumFrom_eq_some (by omega)
  rwa [Int.zero_add] at hsum

end Checked

end AbiConformance
