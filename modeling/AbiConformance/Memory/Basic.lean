import AbiConformance.Memory.Pointer

namespace AbiConformance

@[ext] structure Memory where
  byte : Nat → UInt8

namespace Memory

def empty : Memory := ⟨fun _ => 0⟩

def read (m : Memory) (a n : Nat) : List UInt8 := (List.range n).map fun i => m.byte (a + i)

def overlay (m : Memory) (a : Nat) (block : Array UInt8) : Memory where
  byte i := if h : a ≤ i ∧ i - a < block.size then block[i - a] else m.byte i

def write (m : Memory) (a : Nat) (bs : List UInt8) : Memory := m.overlay a bs.toArray

@[simp] theorem length_read (m : Memory) (a n : Nat) : (m.read a n).length = n := by
  simp [read]

theorem getElem_read {m : Memory} {a n i : Nat} (h : i < (m.read a n).length) :
    (m.read a n)[i] = m.byte (a + i) := by
  simp [read]

theorem read_congr {m m' : Memory} {a n : Nat} (h : ∀ i < n, m.byte (a + i) = m'.byte (a + i)) :
    m.read a n = m'.read a n := by
  apply List.map_congr_left
  intro i hi
  exact h i (List.mem_range.mp hi)

theorem byte_write (m : Memory) (a : Nat) (bs : List UInt8) (i : Nat) :
    (m.write a bs).byte i =
      if h : a ≤ i ∧ i - a < bs.length then bs[i - a] else m.byte i := by
  simp [write, overlay]

theorem byte_write_of_not_mem {m : Memory} {a : Nat} {bs : List UInt8} {i : Nat}
    (h : i < a ∨ a + bs.length ≤ i) : (m.write a bs).byte i = m.byte i := by
  rw [byte_write, dif_neg]
  omega

theorem byte_write_add {m : Memory} {a : Nat} {bs : List UInt8} {i : Nat} (h : i < bs.length) :
    (m.write a bs).byte (a + i) = bs[i] := by
  have hi : a + i - a = i := by omega
  rw [byte_write, dif_pos ⟨by omega, by omega⟩]
  simp only [hi]

@[simp] theorem write_nil (m : Memory) (a : Nat) : m.write a [] = m := by
  ext i
  simp [byte_write]

theorem read_write (m : Memory) (a : Nat) (bs : List UInt8) :
    (m.write a bs).read a bs.length = bs := by
  apply List.ext_getElem (by simp)
  intro i _ h
  rw [getElem_read, byte_write_add h]

theorem read_write_of_disjoint {m : Memory} {a b n : Nat} {bs : List UInt8}
    (h : b + n ≤ a ∨ a + bs.length ≤ b) : (m.write a bs).read b n = m.read b n := by
  apply read_congr
  intro i hi
  apply byte_write_of_not_mem
  omega

end Memory

end AbiConformance
