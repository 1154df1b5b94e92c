import AbiConformance.Ieee.Binary64
import AbiConformance.Matrix.Owned
import AbiConformance.Random.Source

namespace AbiConformance

def draw {γ α : Type} (next : StateM γ α) (width n : Nat) : StateM γ (Option (Array α)) :=
  if canReserve width n then
    some <$> (List.range n).foldlM (fun xs _ => do return xs.push (← next)) #[]
  else pure none

namespace WordSource

def unitOfPair (n : UInt64) : Binary64 :=
  Binary64.ofInt (n >>> 11).toNat / Binary64.ofInt (2 ^ 53)

variable {γ : Type} (G : WordSource γ)

def nextUnit : StateM γ Binary64 := do return unitOfPair (← G.nextPair)

def nextInt32 : StateM γ Int32 := do return (← G.nextWord).toInt32

def nextInt8 : StateM γ Int8 := do return (← G.nextWord).toUInt8.toInt8

def doubles (n : Nat) (seed : UInt64) : Option (Array Binary64) :=
  ((draw G.nextUnit 8 n).run (G.ofSeed seed)).1

def ints (n : Nat) (seed : UInt64) : Option (Array Int32) :=
  ((draw G.nextInt32 4 n).run (G.ofSeed seed)).1

def doubleMatrix (rows cols : Nat) (seed : UInt64) : Option (OwnedMatrix Binary64) :=
  ((OwnedMatrix.generate 8 rows cols fun _ _ => G.nextUnit).run (G.ofSeed seed)).1

def byteMatrix (rows cols : Nat) (seed : UInt64) : Option (OwnedMatrix Int8) :=
  ((OwnedMatrix.generate 1 rows cols fun _ _ => G.nextInt8).run (G.ofSeed seed)).1

end WordSource

namespace Sample

def matrixShapes : List Shape := [⟨256, 256⟩, ⟨1, 65536⟩, ⟨65536, 1⟩]

def arrayLengths : List Nat := [16, 1024, 65536]

end Sample

end AbiConformance
