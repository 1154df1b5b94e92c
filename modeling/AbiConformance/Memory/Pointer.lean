import AbiConformance.Power

namespace AbiConformance

def addressSpace : Nat := 2 ^ 64

structure Pointer where
  bits : UInt64
  deriving DecidableEq

namespace Pointer

def null : Pointer := ⟨0⟩

instance : Inhabited Pointer := ⟨null⟩

def ofAddr (a : Nat) : Pointer := ⟨UInt64.ofNat a⟩

def addr (p : Pointer) : Nat := p.bits.toNat

def isNull (p : Pointer) : Bool := p == null

@[simp] theorem isNull_null : null.isNull = true := rfl

theorem isNull_iff {p : Pointer} : p.isNull = true ↔ p.addr = 0 := by
  cases p with
  | mk bits => simp [isNull, null, addr, ← UInt64.toNat_inj]

theorem addr_lt (p : Pointer) : p.addr < addressSpace := p.bits.toNat_lt

@[simp] theorem ofAddr_addr (p : Pointer) : ofAddr p.addr = p := by
  simp [ofAddr, addr]

theorem addr_ofAddr {a : Nat} (h : a < addressSpace) : (ofAddr a).addr = a := by
  simp only [ofAddr, addr, UInt64.toNat_ofNat']
  exact Nat.mod_eq_of_lt h

theorem isNull_ofAddr {a : Nat} (hpos : 0 < a) (hlt : a < addressSpace) :
    (ofAddr a).isNull = false := by
  rw [Bool.eq_false_iff, Ne, isNull_iff, addr_ofAddr hlt]
  omega

end Pointer

end AbiConformance
