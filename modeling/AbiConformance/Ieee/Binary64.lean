import AbiConformance.Power

namespace AbiConformance

structure Binary64 where
  bits : UInt64
  deriving DecidableEq

namespace Binary64

def zero : Binary64 := ⟨0⟩

def negZero : Binary64 := ⟨0x8000000000000000⟩

def one : Binary64 := ⟨0x3FF0000000000000⟩

def invalid : Binary64 := ⟨0xFFF8000000000000⟩

instance : Inhabited Binary64 := ⟨zero⟩

def magnitude (x : Binary64) : Nat := x.bits.toNat % 2 ^ 63

def isNaN (x : Binary64) : Bool := 2047 * 2 ^ 52 < x.magnitude

def quiet (x : Binary64) : Binary64 := ⟨x.bits ||| 0x0008000000000000⟩

def canonical (x : Binary64) : Binary64 := if x.isNaN then invalid else x

def toFloat (x : Binary64) : Float := Float.ofBits x.bits

def ofFloat (x : Float) : Binary64 := if x.isNaN then invalid else ⟨x.toBits⟩

def lift (op : Float → Float → Float) (x y : Binary64) : Binary64 :=
  if x.isNaN then x.quiet
  else if y.isNaN then y.quiet
  else ofFloat (op x.toFloat y.toFloat)

def add : Binary64 → Binary64 → Binary64 := lift (· + ·)

def mul : Binary64 → Binary64 → Binary64 := lift (· * ·)

def div : Binary64 → Binary64 → Binary64 := lift (· / ·)

instance : Add Binary64 := ⟨add⟩

instance : Mul Binary64 := ⟨mul⟩

instance : Div Binary64 := ⟨div⟩

def equal (x y : Binary64) : Bool :=
  !x.isNaN && !y.isNaN && (x == y || x.magnitude == 0 && y.magnitude == 0)

def roundShift (n shift : Nat) : Nat :=
  let q := n / 2 ^ shift
  let r := n % 2 ^ shift
  if 2 * r < 2 ^ shift ∨ 2 * r = 2 ^ shift ∧ q % 2 = 0 then q else q + 1

def natBits (n : Nat) : Nat :=
  if n = 0 then 0
  else
    let significand := if n.log2 ≤ 52 then n * 2 ^ (52 - n.log2) else roundShift n (n.log2 - 52)
    (n.log2 + 1022) * 2 ^ 52 + significand

def ofInt : Int → Binary64
  | .ofNat n => ⟨UInt64.ofNat (natBits n)⟩
  | .negSucc n => ⟨UInt64.ofNat (2 ^ 63 + natBits (n + 1))⟩

end Binary64

end AbiConformance
