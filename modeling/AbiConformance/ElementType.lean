import AbiConformance.Accumulation
import AbiConformance.Scalar

namespace AbiConformance

inductive ElementType where
  | int8
  | int16
  | int32
  | int64
  | binary32
  | binary64
  deriving DecidableEq

namespace ElementType

abbrev Carrier : ElementType → Type
  | int8 => Int8
  | int16 => Int16
  | int32 => Int32
  | int64 => Int64
  | binary32 => Binary32
  | binary64 => Binary64

abbrev Wide : ElementType → Type
  | int8 => Int32
  | int16 => Int32
  | int32 => Int32
  | int64 => Int64
  | binary32 => Binary32
  | binary64 => Binary64

abbrev Count : ElementType → Type
  | int8 => Int8
  | int16 => Int16
  | int32 => Int32
  | int64 => Int64
  | binary32 => Int32
  | binary64 => Int32

instance instScalarCarrier : (e : ElementType) → Scalar e.Carrier
  | int8 => inferInstanceAs (Scalar Int8)
  | int16 => inferInstanceAs (Scalar Int16)
  | int32 => inferInstanceAs (Scalar Int32)
  | int64 => inferInstanceAs (Scalar Int64)
  | binary32 => inferInstanceAs (Scalar Binary32)
  | binary64 => inferInstanceAs (Scalar Binary64)

instance instAccumulatorCarrier : (e : ElementType) → Accumulator e.Carrier
  | int8 => inferInstanceAs (Accumulator Int8)
  | int16 => inferInstanceAs (Accumulator Int16)
  | int32 => inferInstanceAs (Accumulator Int32)
  | int64 => inferInstanceAs (Accumulator Int64)
  | binary32 => inferInstanceAs (Accumulator Binary32)
  | binary64 => inferInstanceAs (Accumulator Binary64)

instance instAccumulatorWide : (e : ElementType) → Accumulator e.Wide
  | int8 => inferInstanceAs (Accumulator Int32)
  | int16 => inferInstanceAs (Accumulator Int32)
  | int32 => inferInstanceAs (Accumulator Int32)
  | int64 => inferInstanceAs (Accumulator Int64)
  | binary32 => inferInstanceAs (Accumulator Binary32)
  | binary64 => inferInstanceAs (Accumulator Binary64)

instance instWideningCarrier : (e : ElementType) → Widening e.Carrier e.Wide
  | int8 => inferInstanceAs (Widening Int8 Int32)
  | int16 => inferInstanceAs (Widening Int16 Int32)
  | int32 => inferInstanceAs (Widening Int32 Int32)
  | int64 => inferInstanceAs (Widening Int64 Int64)
  | binary32 => inferInstanceAs (Widening Binary32 Binary32)
  | binary64 => inferInstanceAs (Widening Binary64 Binary64)

instance instIntegralCount : (e : ElementType) → Integral e.Count
  | int8 => inferInstanceAs (Integral Int8)
  | int16 => inferInstanceAs (Integral Int16)
  | int32 => inferInstanceAs (Integral Int32)
  | int64 => inferInstanceAs (Integral Int64)
  | binary32 => inferInstanceAs (Integral Int32)
  | binary64 => inferInstanceAs (Integral Int32)

instance instDecidableEqCarrier : (e : ElementType) → DecidableEq e.Carrier
  | int8 => inferInstanceAs (DecidableEq Int8)
  | int16 => inferInstanceAs (DecidableEq Int16)
  | int32 => inferInstanceAs (DecidableEq Int32)
  | int64 => inferInstanceAs (DecidableEq Int64)
  | binary32 => inferInstanceAs (DecidableEq Binary32)
  | binary64 => inferInstanceAs (DecidableEq Binary64)

def canonical : (e : ElementType) → e.Carrier → e.Carrier
  | int8, x => x
  | int16, x => x
  | int32, x => x
  | int64, x => x
  | binary32, x => Binary32.canonical x
  | binary64, x => Binary64.canonical x

def equal : (e : ElementType) → e.Carrier → e.Carrier → Bool
  | int8, x, y => decide ((x : Int8) = y)
  | int16, x, y => decide ((x : Int16) = y)
  | int32, x, y => decide ((x : Int32) = y)
  | int64, x, y => decide ((x : Int64) = y)
  | binary32, x, y => Binary32.equal x y
  | binary64, x, y => Binary64.equal x y

end ElementType

def elementCount {ν : Type} [Integral ν] (n : ν) : Nat := (Integral.toInt n).toNat

theorem natCast_elementCount {ν : Type} [Integral ν] (n : ν) :
    (elementCount n : Int) = max (Integral.toInt n) 0 :=
  Int.toNat_eq_max _

theorem elementCount_eq_zero_iff {ν : Type} [Integral ν] {n : ν} :
    elementCount n = 0 ↔ Integral.toInt n ≤ 0 :=
  Int.toNat_eq_zero

theorem elementCount_eq {ν : Type} [Integral ν] {count : ν} {n : Nat}
    (h : Integral.toInt count = n) : elementCount count = n := by
  rw [elementCount, h, Int.toNat_natCast]

theorem elementCount_lt (n : Int32) : elementCount n < 2 ^ 31 := by
  have h := n.toInt_lt
  simp only [elementCount, Integral.toInt]
  omega

end AbiConformance
