import AbiConformance.Proofs.Matrix.LayoutAgreement
import AbiConformance.Proofs.Sum.Wrapping

namespace AbiConformance

open Integral Wrapping MatrixView

inductive IntegerType where
  | int8
  | int16
  | int32
  | int64
  deriving DecidableEq

namespace IntegerType

abbrev element : IntegerType → ElementType
  | int8 => .int8
  | int16 => .int16
  | int32 => .int32
  | int64 => .int64

abbrev Carrier (t : IntegerType) : Type := t.element.Carrier

abbrev Wide (t : IntegerType) : Type := t.element.Wide

instance instIntegralCarrier : (t : IntegerType) → Integral t.Carrier
  | int8 => inferInstanceAs (Integral Int8)
  | int16 => inferInstanceAs (Integral Int16)
  | int32 => inferInstanceAs (Integral Int32)
  | int64 => inferInstanceAs (Integral Int64)

instance instIntegralWide : (t : IntegerType) → Integral t.Wide
  | int8 => inferInstanceAs (Integral Int32)
  | int16 => inferInstanceAs (Integral Int32)
  | int32 => inferInstanceAs (Integral Int32)
  | int64 => inferInstanceAs (Integral Int64)

instance instWrappingCarrier : (t : IntegerType) → Wrapping t.Carrier
  | int8 => inferInstanceAs (Wrapping Int8)
  | int16 => inferInstanceAs (Wrapping Int16)
  | int32 => inferInstanceAs (Wrapping Int32)
  | int64 => inferInstanceAs (Wrapping Int64)

instance instWrappingWide : (t : IntegerType) → Wrapping t.Wide
  | int8 => inferInstanceAs (Wrapping Int32)
  | int16 => inferInstanceAs (Wrapping Int32)
  | int32 => inferInstanceAs (Wrapping Int32)
  | int64 => inferInstanceAs (Wrapping Int64)

instance instSignExtending : (t : IntegerType) → SignExtending t.Carrier
  | int8 => inferInstanceAs (SignExtending Int8)
  | int16 => inferInstanceAs (SignExtending Int16)
  | int32 => inferInstanceAs (SignExtending Int32)
  | int64 => inferInstanceAs (SignExtending Int64)

def narrow : (t : IntegerType) → t.Wide → t.Carrier
  | int8, x => Int32.toInt8 x
  | int16, x => Int32.toInt16 x
  | int32, x => x
  | int64, x => x

theorem toInt_narrow_modEq (t : IntegerType) (x : t.Wide) :
    toInt (t.narrow x) ≡ toInt x [ZMOD 2 ^ bits t.Carrier] := by
  cases t with
  | int8 =>
    have h : (Int32.toInt8 x).toInt % 2 ^ 8 = (Int32.toInt x) % 2 ^ 8 := by
      rw [Int32.toInt_toInt8]
      exact Int.bmod_emod
    exact h
  | int16 =>
    have h : (Int32.toInt16 x).toInt % 2 ^ 16 = (Int32.toInt x) % 2 ^ 16 := by
      rw [Int32.toInt_toInt16]
      exact Int.bmod_emod
    exact h
  | int32 => rfl
  | int64 => rfl

theorem bits_dvd (t : IntegerType) : (2 ^ bits t.Carrier : Int) ∣ 2 ^ bits t.Wide := by
  cases t <;> exact pow_dvd_pow 2 (by decide)

theorem represents_narrow {t : IntegerType} {x : t.Wide} {n : Int} (h : Represents x n) :
    Represents (t.narrow x) n :=
  represents_of_modEq ((t.toInt_narrow_modEq x).trans (h.modEq.of_dvd t.bits_dvd))

structure SumsOf (t : IntegerType) (xs : List t.Carrier) (x : t.Carrier) (y : t.Wide) : Prop where
  represents : Represents x (exactSum xs)
  represents_wide : Represents y (exactSum xs)
  narrow_eq : t.narrow y = x

theorem sumsOf (t : IntegerType) (xs : List t.Carrier) : t.SumsOf xs (sum xs) (sumWide xs) where
  represents := represents_sum xs
  represents_wide := represents_sumWide xs
  narrow_eq := (represents_sum xs _).mpr (represents_narrow (represents_sumWide xs)).modEq

theorem SumsOf.modEq {t : IntegerType} {xs : List t.Carrier} {x : t.Carrier} {y : t.Wide}
    (h : t.SumsOf xs x y) : toInt x ≡ toInt y [ZMOD 2 ^ bits t.Carrier] := by
  rw [← h.narrow_eq]
  exact t.toInt_narrow_modEq y

end IntegerType

theorem IntegerType.sums_agree_modulo_width (t : IntegerType) :
    (∀ xs : List t.Carrier,
      Represents (sum xs) (exactSum xs) ∧
        (xs.length < 2 ^ 63 → checkedSum xs = some (exactSum xs)) ∧
        (∀ view : RowMajor t.Carrier, elements view = xs →
          t.SumsOf xs (sum xs) (sumMatrix view)) ∧
        ∀ view : RowSlices t.Carrier, elements view = xs →
          t.SumsOf xs (sum xs) (sumMatrix view)) ∧
      ∀ (m : Memory) (data : Pointer) (rows cols : Int32) (count : t.element.Count),
        elementCount rows * elementCount cols = elementCount count →
          ∃ x y, (Call.sumArray t.element data count).run m = (t.element.value x, m) ∧
            (Call.sumMatrix t.element rows cols data).run m = (t.element.wideValue y, m) ∧
            t.SumsOf (m.slice t.Carrier data (elementCount count)) x y ∧
            toInt x ≡ toInt y [ZMOD 2 ^ bits t.Carrier] := by
  refine ⟨fun xs => ⟨represents_sum xs, checkedSum_eq_some, ?_, ?_⟩, ?_⟩
  · rintro view rfl
    rw [sumMatrix_rowMajor, elements_rowMajor]
    exact t.sumsOf _
  · rintro view rfl
    rw [sumMatrix_rowSlices, elements_rowSlices]
    exact t.sumsOf _
  · intro m data rows cols count hcount
    have hsums := t.sumsOf (m.slice t.Carrier data (elementCount count))
    refine ⟨_, _, rfl, ?_, hsums, hsums.modEq⟩
    have hlen := Memory.shapeOf_len_lt rows cols
    simp only [Call.run, Memory.sumContiguous_eq_sumWide_slice hlen]
    rw [← hcount]
    rfl

def wrappingRun : List Int8 := [127, 127, -1, 127, 100, 5]

theorem IntegerType.sums_agree_modulo_width_wrappingRun :
    let m := Memory.empty.storeArray 64 wrappingRun
    wrappingRun.length < 2 ^ 63 ∧ checkedSum wrappingRun = some 485 ∧
      Represents (sum wrappingRun) 485 ∧ sum wrappingRun = -27 ∧
      elementCount (3 : Int32) * elementCount (2 : Int32) = elementCount (6 : Int8) ∧
      (Call.sumArray .int8 (.ofAddr 64) 6).run m = (.int8 (-27), m) ∧
      (Call.sumMatrix .int8 3 2 (.ofAddr 64)).run m = (.int32 485, m) := by
  have hshort : wrappingRun.length < 2 ^ 63 := by decide
  obtain ⟨hlists, hcalls⟩ := IntegerType.int8.sums_agree_modulo_width
  obtain ⟨hsum, hchecked, -⟩ := hlists wrappingRun
  refine ⟨hshort, hchecked hshort, hsum, rfl, rfl, ?_⟩
  obtain ⟨x, y, hx, hy, hsums, -⟩ :=
    hcalls (Memory.empty.storeArray 64 wrappingRun) (.ofAddr 64) 3 2 6 rfl
  have hnarrow : (-27 : Int8) = x := (hsums.represents _).mpr rfl
  have hwide : (485 : Int32) = y := (hsums.represents_wide _).mpr rfl
  subst hnarrow hwide
  exact ⟨hx, hy⟩

end AbiConformance
