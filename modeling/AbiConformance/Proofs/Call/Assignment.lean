import AbiConformance.Proofs.Call.Footprint
import AbiConformance.Proofs.Memory.Words

namespace AbiConformance

open LittleEndian Memory

inductive Assignment where
  | plain (e : ElementType) (out : Pointer) (x : e.Carrier)
  | converted (out : Pointer) (x : Int32)

namespace Assignment

def call : Assignment → Call
  | plain e out x => .assign e out x
  | converted out x => .assignConverted out x

def out : Assignment → Pointer
  | plain _ out _ => out
  | converted out _ => out

def width : Assignment → Nat
  | plain e _ _ => Scalar.width e.Carrier
  | converted _ _ => 8

def word : Assignment → Nat
  | plain _ _ x => Scalar.toWord x
  | converted _ x => Scalar.toWord (Binary64.ofInt x.toInt)

def Covers (w : Assignment) (i : Nat) : Prop := w.out.addr ≤ i ∧ i < w.out.addr + w.width

instance (w : Assignment) (i : Nat) : Decidable (w.Covers i) :=
  inferInstanceAs (Decidable (_ ∧ _))

def byteAt (w : Assignment) (i : Nat) : UInt8 := UInt8.ofNat (w.word / 256 ^ (i - w.out.addr))

def run (m : Memory) (ws : List Assignment) : Memory := ws.foldl (fun m w => (w.call.run m).2) m

def lastCovering (ws : List Assignment) (i : Nat) : Option Assignment :=
  (ws.filter fun w => w.Covers i).getLast?

end Assignment

theorem LittleEndian.getElem_encode {width n j : Nat} (h : j < (encode width n).length) :
    (encode width n)[j] = UInt8.ofNat (n / 256 ^ j) := by
  induction width generalizing n j with
  | zero => simp [encode] at h
  | succ width ih =>
    cases j with
    | zero => simp [encode]
    | succ j =>
      simp only [encode, List.getElem_cons_succ]
      rw [ih, Nat.div_div_eq_div_mul, Nat.pow_succ']

namespace Assignment

theorem word_lt (w : Assignment) : w.word < 256 ^ w.width := by
  cases w with
  | plain e out x => exact Scalar.toWord_lt x
  | converted out x => exact Scalar.toWord_lt (Binary64.ofInt x.toInt)

theorem run_call (w : Assignment) (m : Memory) :
    (w.call.run m).2 = m.write w.out.addr (encode w.width w.word) := by
  cases w <;> simp only [call, Call.run] <;> rfl

theorem byte_run_call (w : Assignment) (m : Memory) (i : Nat) :
    (w.call.run m).2.byte i = if w.Covers i then w.byteAt i else m.byte i := by
  rw [run_call]
  split
  · rename_i hw
    obtain ⟨j, hj⟩ := Nat.exists_eq_add_of_le hw.1
    have hlen : j < (encode w.width w.word).length := by
      have := hw.2
      rw [length_encode]
      omega
    rw [byteAt, hj, byte_write_add hlen, getElem_encode, Nat.add_sub_cancel_left]
  · rename_i hw
    apply byte_write_of_not_mem
    rw [length_encode]
    simp only [Covers] at hw
    omega

theorem run_concat (m : Memory) (ws : List Assignment) (w : Assignment) :
    run m (ws ++ [w]) = (w.call.run (run m ws)).2 := by
  rw [run, List.foldl_append]
  rfl

theorem lastCovering_concat (ws : List Assignment) (w : Assignment) (i : Nat) :
    lastCovering (ws ++ [w]) i = if w.Covers i then some w else lastCovering ws i := by
  rw [lastCovering, List.filter_append]
  split
  · rename_i hw
    simp [hw]
  · rename_i hw
    simp [hw, lastCovering]

theorem byte_run (m : Memory) (ws : List Assignment) (i : Nat) :
    (run m ws).byte i = ((lastCovering ws i).map (·.byteAt i)).getD (m.byte i) := by
  -- The last assignment decides the bytes it covers, so it is the one to split off.
  induction ws using List.reverseRecOn with
  | nil => rfl
  | append_singleton ws w ih =>
    rw [run_concat, byte_run_call, lastCovering_concat]
    split
    · rfl
    · exact ih

theorem lastCovering_of_unique {ws : List Assignment} {w : Assignment} {i : Nat} (hw : w ∈ ws)
    (hi : w.Covers i) (hunique : ∀ v ∈ ws, v.Covers i → v = w) : lastCovering ws i = some w := by
  have hmem : w ∈ ws.filter fun v => v.Covers i := by simp [hw, hi]
  rw [lastCovering, List.getLast?_eq_some_getLast (List.ne_nil_of_mem hmem)]
  have hlast := List.getLast_mem (List.ne_nil_of_mem hmem)
  rw [List.mem_filter] at hlast
  rw [hunique _ hlast.1 (by simpa using hlast.2)]

theorem read_run_of_unique {m : Memory} {ws : List Assignment} {w : Assignment} (hw : w ∈ ws)
    (hunique : ∀ v ∈ ws, ∀ i, w.Covers i → v.Covers i → v = w) :
    (run m ws).read w.out.addr w.width = encode w.width w.word := by
  apply List.ext_getElem (by simp)
  intro j hj _
  rw [length_read] at hj
  have hcovers : w.Covers (w.out.addr + j) := ⟨Nat.le_add_right _ _, Nat.add_lt_add_left hj _⟩
  rw [getElem_read, byte_run, lastCovering_of_unique hw hcovers fun v hv => hunique v hv _ hcovers,
    getElem_encode, Option.map_some, Option.getD_some, byteAt, Nat.add_sub_cancel_left]

section Fill

variable {e : ElementType} {data : Pointer} {xs : List e.Carrier}

def element (e : ElementType) (data : Pointer) (i : Nat) (x : e.Carrier) : Assignment :=
  .plain e (.ofAddr (data.addr + i * Scalar.width e.Carrier)) x

def fill (e : ElementType) (data : Pointer) (xs : List e.Carrier) : List Assignment :=
  xs.mapIdx (element e data)

theorem width_pos (e : ElementType) : 0 < Scalar.width e.Carrier := by
  cases e <;> decide

theorem addr_element {i : Nat} {x : e.Carrier}
    (h : data.addr + (i + 1) * Scalar.width e.Carrier ≤ addressSpace) :
    (element e data i x).out.addr = data.addr + i * Scalar.width e.Carrier := by
  have hpos := width_pos e
  rw [Nat.succ_mul] at h
  exact Pointer.addr_ofAddr (by omega)

theorem index_of_covers_element {i k : Nat} {x : e.Carrier}
    (h : data.addr + (i + 1) * Scalar.width e.Carrier ≤ addressSpace)
    (hk : (element e data i x).Covers k) : (k - data.addr) / Scalar.width e.Carrier = i := by
  simp only [Covers, addr_element h] at hk
  simp only [element, width] at hk
  apply Nat.div_eq_of_lt_le
  · omega
  · rw [Nat.succ_mul]
    omega

theorem words_run_fill {m : Memory} {ws : List Assignment}
    (hfits : data.addr + xs.length * Scalar.width e.Carrier ≤ addressSpace)
    (hp : ws.Perm (fill e data xs)) :
    (run m ws).words data.addr (Scalar.width e.Carrier) xs.length = xs.map Scalar.toWord := by
  have hend : ∀ i < xs.length, data.addr + (i + 1) * Scalar.width e.Carrier ≤ addressSpace :=
    fun i hi => (Nat.add_le_add_left (Nat.mul_le_mul_right _ hi) _).trans hfits
  apply List.ext_getElem (by simp)
  intro i hi _
  rw [length_words] at hi
  have hmem : element e data i xs[i] ∈ ws := by
    rw [hp.mem_iff, fill, List.mem_mapIdx]
    exact ⟨i, hi, rfl⟩
  have hunique : ∀ v ∈ ws, ∀ k, (element e data i xs[i]).Covers k → v.Covers k →
      v = element e data i xs[i] := by
    intro v hv k hk hvk
    rw [hp.mem_iff, fill, List.mem_mapIdx] at hv
    obtain ⟨j, hj, rfl⟩ := hv
    obtain rfl : i = j := (index_of_covers_element (hend i hi) hk).symm.trans
      (index_of_covers_element (hend j hj) hvk)
    rfl
  have hread := read_run_of_unique (m := m) hmem hunique
  rw [addr_element (hend i hi)] at hread
  simp only [words, List.getElem_map, List.getElem_range]
  exact (congrArg decode hread).trans (decode_encode_of_lt (word_lt _))

end Fill

end Assignment

end AbiConformance
