import AbiConformance.Memory.Typed

namespace AbiConformance.Memory

variable {α : Type} [Scalar α]

theorem read_add (m : Memory) (a n k : Nat) :
    m.read a (n + k) = m.read a n ++ m.read (a + n) k := by
  simp only [read, List.range_add, List.map_append, List.map_map, Function.comp_def, Nat.add_assoc]

theorem byte_of_read_eq {m m' : Memory} {a b n i : Nat} (h : m.read a n = m'.read b n)
    (hi : i < n) : m.byte (a + i) = m'.byte (b + i) := by
  have hget := congrArg (·[i]?) h
  simpa [read, hi] using hget

theorem read_eq_iff {m m' : Memory} {a b n : Nat} :
    m.read a n = m'.read b n ↔ ∀ i < n, m.byte (a + i) = m'.byte (b + i) := by
  constructor
  · intro h i hi
    exact byte_of_read_eq h hi
  · intro h
    apply List.map_congr_left
    intro i hi
    exact h i (List.mem_range.mp hi)

theorem read_segment {m m' : Memory} {a b n o k : Nat} (h : m.read a n = m'.read b n)
    (hk : o + k ≤ n) : m.read (a + o) k = m'.read (b + o) k := by
  rw [read_eq_iff] at h ⊢
  intro i hi
  have hb := h (o + i) (by omega)
  simpa only [Nat.add_assoc] using hb

theorem load_of_read_eq {m m' : Memory} {a b : Nat}
    (h : m.read a (Scalar.width α) = m'.read b (Scalar.width α)) : m.load α a = m'.load α b := by
  simp only [load, h]

theorem read_eq_of_load_eq {m m' : Memory} {a b : Nat} (h : m.load α a = m'.load α b) :
    m.read a (Scalar.width α) = m'.read b (Scalar.width α) := by
  have hencode := congrArg Scalar.encode h
  rwa [load, load, Scalar.encode_decode (length_read ..), Scalar.encode_decode (length_read ..)]
    at hencode

theorem loadArray_add (m : Memory) (a n k : Nat) :
    m.loadArray α a (n + k) = m.loadArray α a n ++ m.loadArray α (a + n * Scalar.width α) k := by
  simp only [loadArray, List.range_add, List.map_append, List.map_map, Function.comp_def,
    Nat.add_mul, Nat.add_assoc]

theorem loadArray_mul (m : Memory) (a rows cols : Nat) :
    m.loadArray α a (rows * cols) = (List.range rows).flatMap fun r =>
      m.loadArray α (a + r * cols * Scalar.width α) cols := by
  induction rows with
  | zero => simp [loadArray]
  | succ rows ih => simp [Nat.succ_mul, loadArray_add, List.range_succ, ih]

theorem loadArray_congr {m m' : Memory} {a b n : Nat}
    (h : m.read a (n * Scalar.width α) = m'.read b (n * Scalar.width α)) :
    m.loadArray α a n = m'.loadArray α b n := by
  apply List.map_congr_left
  intro i hi
  have hlt : i < n := List.mem_range.mp hi
  have hend : (i + 1) * Scalar.width α ≤ n * Scalar.width α := Nat.mul_le_mul_right _ hlt
  rw [Nat.succ_mul] at hend
  exact load_of_read_eq (read_segment h hend)

theorem length_flatMap_encode (xs : List α) :
    (xs.flatMap Scalar.encode).length = xs.length * Scalar.width α := by
  induction xs with
  | nil => simp
  | cons x xs ih => simp [ih, Nat.succ_mul, Nat.add_comm]

theorem write_append (m : Memory) (a : Nat) (bs cs : List UInt8) :
    m.write a (bs ++ cs) = (m.write a bs).write (a + bs.length) cs := by
  apply Memory.ext
  funext i
  rw [byte_write, byte_write, byte_write]
  by_cases hlow : a ≤ i ∧ i - a < bs.length
  · have hnot : ¬(a + bs.length ≤ i ∧ i - (a + bs.length) < cs.length) := by omega
    have hall : a ≤ i ∧ i - a < (bs ++ cs).length := by
      rw [List.length_append]
      omega
    rw [dif_pos hall, dif_neg hnot, dif_pos hlow, List.getElem_append_left hlow.2]
  · by_cases hhigh : a + bs.length ≤ i ∧ i - (a + bs.length) < cs.length
    · have hall : a ≤ i ∧ i - a < (bs ++ cs).length := by
        rw [List.length_append]
        omega
      rw [dif_pos hall, dif_pos hhigh, List.getElem_append_right (by omega)]
      congr 1
      omega
    · have hall : ¬(a ≤ i ∧ i - a < (bs ++ cs).length) := by
        rw [List.length_append]
        omega
      rw [dif_neg hall, dif_neg hhigh, dif_neg hlow]

theorem storeArray_cons (m : Memory) (a : Nat) (x : α) (xs : List α) :
    m.storeArray a (x :: xs) = (m.store a x).storeArray (a + Scalar.width α) xs := by
  simp only [storeArray, List.flatMap_cons, write_append, Scalar.length_encode, store]

theorem load_storeArray (m : Memory) (a : Nat) (xs : List α) (i : Nat)
    (h : i < xs.length) : (m.storeArray a xs).load α (a + i * Scalar.width α) = xs[i] := by
  induction xs generalizing m a i with
  | nil => cases h
  | cons x xs ih =>
    rw [storeArray_cons]
    cases i with
    | zero =>
      have hread : ((m.store a x).storeArray (a + Scalar.width α) xs).read a (Scalar.width α) =
          (m.store a x).read a (Scalar.width α) := read_write_of_disjoint (Or.inl (Nat.le_refl _))
      rw [Nat.zero_mul, Nat.add_zero, load_of_read_eq hread, load_store]
      rfl
    | succ i =>
      have htail := ih (m.store a x) (a + Scalar.width α) i (Nat.lt_of_succ_lt_succ h)
      rwa [Nat.add_assoc, Nat.add_comm (Scalar.width α), ← Nat.succ_mul] at htail

theorem loadArray_storeArray (m : Memory) (a : Nat) (xs : List α) :
    (m.storeArray a xs).loadArray α a xs.length = xs := by
  apply List.ext_getElem (by simp)
  intro i _ hi
  simpa [loadArray] using load_storeArray m a xs i hi

theorem loadArray_storeArray_of_disjoint {β : Type} [Scalar β] {m : Memory} {a b n : Nat}
    {xs : List β} (h : b + n * Scalar.width α ≤ a ∨ a + xs.length * Scalar.width β ≤ b) :
    (m.storeArray a xs).loadArray α b n = m.loadArray α b n :=
  loadArray_congr (read_write_of_disjoint (by rwa [length_flatMap_encode]))

theorem slice_of_not_null {m : Memory} {p : Pointer} {n : Nat} (h : p.isNull = false) :
    m.slice α p n = m.loadArray α p.addr n := by
  simp [slice, h]

end AbiConformance.Memory
