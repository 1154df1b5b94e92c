import AbiConformance.Ieee.Binary64

namespace AbiConformance

structure Binary32 where
  bits : UInt32
  deriving DecidableEq

namespace Binary32

def zero : Binary32 := ⟨0⟩

def negZero : Binary32 := ⟨0x80000000⟩

def invalid : Binary32 := ⟨0xFFC00000⟩

instance : Inhabited Binary32 := ⟨zero⟩

def sign (x : Binary32) : Nat := x.bits.toNat / 2 ^ 31

def magnitude (x : Binary32) : Nat := x.bits.toNat % 2 ^ 31

def isNaN (x : Binary32) : Bool := 255 * 2 ^ 23 < x.magnitude

def quiet (x : Binary32) : Binary32 := ⟨x.bits ||| 0x00400000⟩

def canonical (x : Binary32) : Binary32 := if x.isNaN then invalid else x

def toFloat32 (x : Binary32) : Float32 := Float32.ofBits x.bits

def ofFloat32 (x : Float32) : Binary32 := if x.isNaN then invalid else ⟨x.toBits⟩

def add (x y : Binary32) : Binary32 :=
  if x.isNaN then x.quiet
  else if y.isNaN then y.quiet
  else ofFloat32 (x.toFloat32 + y.toFloat32)

instance : Add Binary32 := ⟨add⟩

def equal (x y : Binary32) : Bool :=
  !x.isNaN && !y.isNaN && (x == y || x.magnitude == 0 && y.magnitude == 0)

/-- A magnitude below `2 ^ 23` is that many units of weight `2 ^ -149`, and its top bit becomes
the hidden bit of a wider number; from `255 * 2 ^ 23` on the top exponent is kept. -/
def widenMagnitude (m : Nat) : Nat :=
  if m = 0 then 0
  else if m < 2 ^ 23 then (m.log2 + 873) * 2 ^ 52 + m * 2 ^ (52 - m.log2)
  else if m < 255 * 2 ^ 23 then (896 * 2 ^ 23 + m) * 2 ^ 29
  else 2047 * 2 ^ 52 + (m - 255 * 2 ^ 23) * 2 ^ 29

def toBinary64 (x : Binary32) : Binary64 :=
  let wide : Binary64 := ⟨UInt64.ofNat (x.sign * 2 ^ 63 + widenMagnitude x.magnitude)⟩
  if x.isNaN then wide.quiet else wide

end Binary32

end AbiConformance
