import AbiConformance.Memory.Basic
import AbiConformance.Scalar

namespace AbiConformance.Memory

variable {α β : Type} [Scalar α] [Scalar β]

def load (α : Type) [Scalar α] (m : Memory) (a : Nat) : α :=
  Scalar.decode (m.read a (Scalar.width α))

def store (m : Memory) (a : Nat) (x : α) : Memory := m.write a (Scalar.encode x)

def modify (m : Memory) (a : Nat) (f : α → α) : Memory := m.store a (f (m.load α a))

def loadArray (α : Type) [Scalar α] (m : Memory) (a n : Nat) : List α :=
  (List.range n).map fun i => m.load α (a + i * Scalar.width α)

def storeArray (m : Memory) (a : Nat) (xs : List α) : Memory :=
  m.write a (xs.flatMap Scalar.encode)

def slice (α : Type) [Scalar α] (m : Memory) (p : Pointer) (n : Nat) : List α :=
  if p.isNull then [] else m.loadArray α p.addr n

theorem load_store (m : Memory) (a : Nat) (x : α) : (m.store a x).load α a = x := by
  have h := m.read_write a (Scalar.encode x)
  rw [Scalar.length_encode] at h
  simp only [load, store, h, Scalar.decode_encode]

theorem load_store_of_disjoint {m : Memory} {a b : Nat} {x : β}
    (h : b + Scalar.width α ≤ a ∨ a + Scalar.width β ≤ b) :
    (m.store a x).load α b = m.load α b := by
  simp only [load, store]
  rw [read_write_of_disjoint (by simpa using h)]

theorem load_congr {m m' : Memory} {a : Nat}
    (h : ∀ i < Scalar.width α, m.byte (a + i) = m'.byte (a + i)) :
    m.load α a = m'.load α a := by
  simp only [load, read_congr h]

theorem byte_store_of_not_mem {m : Memory} {a i : Nat} {x : α}
    (h : i < a ∨ a + Scalar.width α ≤ i) : (m.store a x).byte i = m.byte i :=
  byte_write_of_not_mem (by simpa using h)

@[simp] theorem length_loadArray (m : Memory) (a n : Nat) : (m.loadArray α a n).length = n := by
  simp [loadArray]

@[simp] theorem slice_null (m : Memory) (n : Nat) : m.slice α .null n = [] := rfl

@[simp] theorem slice_zero (m : Memory) (p : Pointer) : m.slice α p 0 = [] := by
  simp [slice, loadArray]

end AbiConformance.Memory
