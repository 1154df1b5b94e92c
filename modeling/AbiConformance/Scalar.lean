import AbiConformance.Bytes.LittleEndian
import AbiConformance.Ieee.Binary32
import AbiConformance.Memory.Pointer

namespace AbiConformance

class Scalar (α : Type) where
  width : Nat
  toWord : α → Nat
  ofWord : Nat → α
  toWord_lt : ∀ x, toWord x < 256 ^ width
  ofWord_toWord : ∀ x, ofWord (toWord x) = x
  toWord_ofWord : ∀ n, n < 256 ^ width → toWord (ofWord n) = n

namespace Scalar

variable {α : Type} [Scalar α]

def encode (x : α) : List UInt8 := LittleEndian.encode (width α) (toWord x)

def decode (bs : List UInt8) : α := ofWord (LittleEndian.decode bs)

@[simp] theorem length_encode (x : α) : (encode x).length = width α :=
  LittleEndian.length_encode ..

@[simp] theorem decode_encode (x : α) : decode (encode x) = x := by
  simp only [decode, encode, LittleEndian.decode_encode_of_lt (toWord_lt x), ofWord_toWord]

theorem encode_decode {bs : List UInt8} (h : bs.length = width α) :
    encode (decode bs : α) = bs := by
  have hlt : LittleEndian.decode bs < 256 ^ width α := h ▸ LittleEndian.decode_lt bs
  simp only [encode, decode, toWord_ofWord _ hlt, ← h, LittleEndian.encode_decode]

end Scalar

instance : Scalar UInt8 where
  width := 1
  toWord := UInt8.toNat
  ofWord := UInt8.ofNat
  toWord_lt x := x.toNat_lt
  ofWord_toWord x := by simp
  toWord_ofWord n h := by simp only [UInt8.toNat_ofNat']; exact Nat.mod_eq_of_lt h

instance : Scalar UInt64 where
  width := 8
  toWord := UInt64.toNat
  ofWord := UInt64.ofNat
  toWord_lt x := x.toNat_lt
  ofWord_toWord x := by simp
  toWord_ofWord n h := by simp only [UInt64.toNat_ofNat']; exact Nat.mod_eq_of_lt h

instance : Scalar Int8 where
  width := 1
  toWord x := x.toUInt8.toNat
  ofWord n := (UInt8.ofNat n).toInt8
  toWord_lt x := x.toUInt8.toNat_lt
  ofWord_toWord x := by simp
  toWord_ofWord n h := by
    simp only [UInt8.toUInt8_toInt8, UInt8.toNat_ofNat']; exact Nat.mod_eq_of_lt h

instance : Scalar Int16 where
  width := 2
  toWord x := x.toUInt16.toNat
  ofWord n := (UInt16.ofNat n).toInt16
  toWord_lt x := x.toUInt16.toNat_lt
  ofWord_toWord x := by simp
  toWord_ofWord n h := by
    simp only [UInt16.toUInt16_toInt16, UInt16.toNat_ofNat']; exact Nat.mod_eq_of_lt h

instance : Scalar Int32 where
  width := 4
  toWord x := x.toUInt32.toNat
  ofWord n := (UInt32.ofNat n).toInt32
  toWord_lt x := x.toUInt32.toNat_lt
  ofWord_toWord x := by simp
  toWord_ofWord n h := by
    simp only [UInt32.toUInt32_toInt32, UInt32.toNat_ofNat']; exact Nat.mod_eq_of_lt h

instance : Scalar Int64 where
  width := 8
  toWord x := x.toUInt64.toNat
  ofWord n := (UInt64.ofNat n).toInt64
  toWord_lt x := x.toUInt64.toNat_lt
  ofWord_toWord x := by simp
  toWord_ofWord n h := by
    simp only [UInt64.toUInt64_toInt64, UInt64.toNat_ofNat']; exact Nat.mod_eq_of_lt h

instance : Scalar Binary32 where
  width := 4
  toWord x := x.bits.toNat
  ofWord n := ⟨UInt32.ofNat n⟩
  toWord_lt x := x.bits.toNat_lt
  ofWord_toWord x := by simp
  toWord_ofWord n h := by simp only [UInt32.toNat_ofNat']; exact Nat.mod_eq_of_lt h

instance : Scalar Binary64 where
  width := 8
  toWord x := x.bits.toNat
  ofWord n := ⟨UInt64.ofNat n⟩
  toWord_lt x := x.bits.toNat_lt
  ofWord_toWord x := by simp
  toWord_ofWord n h := by simp only [UInt64.toNat_ofNat']; exact Nat.mod_eq_of_lt h

instance : Scalar Pointer where
  width := 8
  toWord p := p.addr
  ofWord := Pointer.ofAddr
  toWord_lt p := p.addr_lt
  ofWord_toWord p := by simp
  toWord_ofWord _ h := Pointer.addr_ofAddr h

namespace Scalar

@[simp] theorem width_uint64 : width UInt64 = 8 := rfl

@[simp] theorem width_int32 : width Int32 = 4 := rfl

@[simp] theorem width_int64 : width Int64 = 8 := rfl

@[simp] theorem width_binary32 : width Binary32 = 4 := rfl

@[simp] theorem width_binary64 : width Binary64 = 8 := rfl

@[simp] theorem width_pointer : width Pointer = 8 := rfl

end Scalar

end AbiConformance
