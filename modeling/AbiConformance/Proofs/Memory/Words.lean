import AbiConformance.Proofs.Memory.Addition

namespace AbiConformance

namespace LittleEndian

def split (width count word : Nat) : List Nat :=
  (List.range count).map fun j => word / 256 ^ (j * width) % 256 ^ width

def join (width : Nat) : List Nat → Nat
  | [] => 0
  | digit :: digits => digit + 256 ^ width * join width digits

theorem decode_append_lt (bs cs : List UInt8) :
    decode (bs ++ cs) % 256 ^ bs.length = decode bs := by
  rw [decode_append, Nat.add_mul_mod_self_left, Nat.mod_eq_of_lt (decode_lt bs)]

theorem decode_append_div (bs cs : List UInt8) :
    decode (bs ++ cs) / 256 ^ bs.length = decode cs := by
  rw [decode_append, Nat.add_mul_div_left _ _ (by positivity), Nat.div_eq_of_lt (decode_lt bs),
    Nat.zero_add]

end LittleEndian

open LittleEndian

namespace Memory

def words (m : Memory) (a width n : Nat) : List Nat :=
  (List.range n).map fun i => decode (m.read (a + i * width) width)

theorem words_add (m : Memory) (a width n k : Nat) :
    m.words a width (n + k) = m.words a width n ++ m.words (a + n * width) width k := by
  simp only [words, List.range_add, List.map_append, List.map_map, Function.comp_def, Nat.add_mul,
    Nat.add_assoc]

@[simp] theorem length_words (m : Memory) (a width n : Nat) : (m.words a width n).length = n := by
  simp [words]

theorem decode_read_segment (m : Memory) {a n o k : Nat} (h : o + k ≤ n) :
    decode (m.read (a + o) k) = decode (m.read a n) / 256 ^ o % 256 ^ k := by
  obtain ⟨rest, rfl⟩ := Nat.exists_eq_add_of_le h
  have hfront := decode_append_div (m.read a o) (m.read (a + o) (k + rest))
  have hback := decode_append_lt (m.read (a + o) k) (m.read (a + o + k) rest)
  rw [length_read] at hfront hback
  rw [Nat.add_assoc o, read_add m a o, hfront, read_add m (a + o) k, hback]

theorem words_eq_split (m : Memory) (a width k : Nat) :
    m.words a width k = split width k (decode (m.read a (k * width))) := by
  apply List.map_congr_left
  intro j hj
  have hend : (j + 1) * width ≤ k * width := Nat.mul_le_mul_right _ (List.mem_range.mp hj)
  rw [Nat.succ_mul] at hend
  exact decode_read_segment m hend

theorem decode_read_eq_join (m : Memory) (a width k : Nat) :
    decode (m.read a (k * width)) = join width (m.words a width k) := by
  induction k generalizing a with
  | zero => simp [read, words, decode, join]
  | succ k ih =>
    have hfirst : m.words a width 1 = [decode (m.read a width)] := by simp [words]
    rw [Nat.succ_mul, Nat.add_comm, read_add, decode_append, length_read, ih, Nat.add_comm k,
      words_add, hfirst, Nat.one_mul]
    rfl

theorem words_split (m : Memory) (a width n k : Nat) :
    m.words a width (n * k) = (m.words a (k * width) n).flatMap (split width k) := by
  induction n with
  | zero => simp [words]
  | succ n ih =>
    have hlast : m.words (a + n * (k * width)) (k * width) 1 =
        [decode (m.read (a + n * (k * width)) (k * width))] := by simp [words]
    rw [Nat.succ_mul, words_add, words_add, ih, List.flatMap_append, hlast, List.flatMap_singleton,
      ← words_eq_split, Nat.mul_assoc]

theorem words_window (m : Memory) (a width : Nat) {n i k : Nat} (h : i + k ≤ n) :
    ((m.words a width n).drop i).take k = m.words (a + i * width) width k := by
  obtain ⟨rest, rfl⟩ := Nat.exists_eq_add_of_le h
  rw [Nat.add_assoc, words_add, words_add, List.drop_left' (length_words ..),
    List.take_left' (length_words ..)]

theorem words_join (m : Memory) (a width : Nat) {o n k len : Nat} (h : o + n * k ≤ len) :
    m.words (a + o * width) (k * width) n = (List.range n).map fun i =>
      join width (((m.words a width len).drop (o + i * k)).take k) := by
  apply List.map_congr_left
  intro i hi
  have hend : (i + 1) * k ≤ n * k := Nat.mul_le_mul_right _ (List.mem_range.mp hi)
  rw [Nat.succ_mul] at hend
  rw [words_window m a width (by omega), decode_read_eq_join, Nat.add_mul, Nat.mul_assoc,
    Nat.add_assoc]

section Typed

variable {α : Type} [Scalar α]

theorem map_toWord_loadArray (m : Memory) (a n : Nat) :
    (m.loadArray α a n).map Scalar.toWord = m.words a (Scalar.width α) n := by
  simp only [loadArray, words, List.map_map, Function.comp_def, toWord_load]

theorem eq_of_map_toWord {xs ys : List α} (h : xs.map Scalar.toWord = ys.map Scalar.toWord) :
    xs = ys := by
  have hinjective : Function.Injective (Scalar.toWord : α → Nat) :=
    Function.LeftInverse.injective Scalar.ofWord_toWord
  exact List.map_injective_iff.mpr hinjective h

theorem loadArray_eq_of_words {m : Memory} {a n : Nat} {xs : List α}
    (h : xs.map Scalar.toWord = m.words a (Scalar.width α) n) : m.loadArray α a n = xs :=
  eq_of_map_toWord ((map_toWord_loadArray m a n).trans h.symm)

end Typed

end Memory

end AbiConformance
