import AbiConformance.Proofs.Heap.Header
import AbiConformance.Proofs.Ieee.Exact

namespace AbiConformance

namespace Ramp

theorem take_eq (k : Nat) (r : Ramp) :
    r.take k = ((List.range (min k r.left)).map fun j => Binary64.ofInt (r.next + j : Nat),
      { r with next := r.next + min k r.left }) := by
  induction k generalizing r with
  | zero => simp [take]
  | succ k ih =>
    by_cases hlt : r.next < r.stop
    · have hleft : min (k + 1) r.left = min k (left { r with next := r.next + 1 }) + 1 := by
        simp only [left]
        omega
      simp only [take, step, hlt, if_true, ih, hleft, List.range_succ_eq_map, List.map_cons,
        List.map_map, Function.comp_def, Nat.add_zero, Nat.succ_eq_add_one, Nat.add_assoc,
        Nat.add_comm 1]
    · have hleft : r.left = 0 := by
        rw [left]
        omega
      simp [take, step, hlt, hleft]

theorem left_of_step {r rest : Ramp} {x : Binary64} (h : r.step = some (x, rest)) :
    r.left = rest.left + 1 := by
  unfold step at h
  split at h
  · cases h
    simp only [left]
    omega
  · cases h

theorem items_of_step_none {r : Ramp} (h : r.step = none) : r.items = [] := by
  have hleft : r.left = 0 := by
    unfold step at h
    split at h
    · cases h
    · rw [left]
      omega
  rw [items, hleft]
  rfl

theorem items_of_step {r rest : Ramp} {x : Binary64} (h : r.step = some (x, rest)) :
    r.items = x :: rest.items := by
  rw [items, left_of_step h, take, h]
  rfl

def enumerate (r : Ramp) (i : Nat) : List (Binary64 × Nat) :=
  match h : r.step with
  | none => []
  | some (x, rest) => (x, i) :: rest.enumerate (i + 1)
termination_by r.left
decreasing_by
  rw [left_of_step h]
  exact Nat.lt_succ_self _

theorem enumerate_eq (r : Ramp) (i : Nat) : r.enumerate i = r.items.zipIdx i := by
  induction r, i using enumerate.induct with
  | case1 r i h =>
    rw [enumerate, items_of_step_none h]
    split
    · rfl
    · rename_i hsome
      cases h.symm.trans hsome
  | case2 r i x rest h ih =>
    rw [enumerate, items_of_step h, List.zipIdx_cons, ← ih]
    split
    · rename_i hnone
      cases h.symm.trans hnone
    · rename_i hsome
      cases h.symm.trans hsome
      rfl

theorem take_ofCount (n k : Nat) :
    ((ofCount n).take k).1 = (List.range (min k n)).map (fun j => Binary64.ofInt (j : Nat)) ∧
      ((ofCount n).take k).2.left = n - min k n := by
  rw [take_eq]
  simp only [ofCount, left, Nat.sub_zero, Nat.zero_add, and_self]

theorem items_ofCount (n : Nat) :
    (ofCount n).items = (List.range n).map fun j => Binary64.ofInt (j : Nat) := by
  have hitems := (take_ofCount n n).1
  rwa [Nat.min_self] at hitems

theorem enumerate_ofCount (n : Nat) :
    (ofCount n).enumerate 0 = (List.range n).map fun j => (Binary64.ofInt (j : Nat), j) := by
  rw [enumerate_eq, items_ofCount]
  apply List.ext_getElem
  · simp
  · intro j _ _
    simp

end Ramp

namespace Memory

def storeSlots (m : Memory) (a : Nat) (slots : List (Binary64 × Nat)) : Memory :=
  slots.foldl (fun m slot => m.store (a + slot.2 * 8) slot.1) m

theorem storeSlots_zipIdx (m : Memory) (a i : Nat) (xs : List Binary64) :
    m.storeSlots a (xs.zipIdx i) = m.storeArray (a + i * 8) xs := by
  induction xs generalizing m i with
  | nil => exact (m.write_nil _).symm
  | cons x xs ih =>
    have hnext : a + (i + 1) * 8 = a + i * 8 + Scalar.width Binary64 := by
      rw [Scalar.width_binary64]
      omega
    rw [storeArray_cons, ← hnext, ← ih]
    rfl

theorem storeSlots_enumerate (m : Memory) (a : Nat) (r : Ramp) :
    m.storeSlots a (r.enumerate 0) = m.storeArray a r.items := by
  rw [Ramp.enumerate_eq, storeSlots_zipIdx, Nat.zero_mul, Nat.add_zero]

end Memory

def slotCovers (a i : Nat) (slot : Binary64 × Nat) : Bool :=
  decide (a + slot.2 * 8 ≤ i ∧ i < a + slot.2 * 8 + 8)

theorem countP_slots (a i n : Nat) :
    (List.range n).countP (fun j => decide (a + j * 8 ≤ i ∧ i < a + j * 8 + 8)) =
      if Region.Contains [⟨a, n * 8⟩] i then 1 else 0 := by
  simp only [Region.contains_singleton]
  induction n with
  | zero => simp
  | succ n ih =>
    rw [List.range_succ, List.countP_append, ih, List.countP_singleton]
    simp only [decide_eq_true_eq]
    by_cases hbefore : a ≤ i ∧ i < a + n * 8
    · rw [if_pos hbefore, if_neg (by omega), if_pos (by omega)]
    · by_cases hlast : a + n * 8 ≤ i ∧ i < a + n * 8 + 8
      · rw [if_neg hbefore, if_pos hlast, if_pos (by omega)]
      · rw [if_neg hbefore, if_neg hlast, if_neg (by omega)]

theorem countP_enumerate (a i n : Nat) :
    ((Ramp.ofCount n).enumerate 0).countP (slotCovers a i) =
      if Region.Contains [⟨a, n * 8⟩] i then 1 else 0 := by
  rw [Ramp.enumerate_ofCount, List.countP_map]
  exact countP_slots a i n

def Arena.withRamp (s : Arena) (a n : Nat) : Arena :=
  { s.withBlock a (n * 8) with
    memory := (s.withBlock a (n * 8)).memory.storeSlots (a + Block.header)
      ((Ramp.ofCount n).enumerate 0) }

theorem Arena.memory_withRamp (s : Arena) (a n : Nat) : (s.withRamp a n).memory =
    (s.withBlock a (n * 8)).memory.storeArray (a + Block.header) (Ramp.ofCount n).items :=
  Memory.storeSlots_enumerate _ _ _

theorem Arena.rewrites_withRamp (s : Arena) (a n : Nat) :
    Memory.Rewrites [⟨a + Block.header, n * 8⟩] (s.withBlock a (n * 8)).memory
      (s.withRamp a n).memory := by
  rw [memory_withRamp, ← Block.length_encode_ramp]
  exact .write .refl fun _ hi => hi

namespace Block

variable {A : Allocator} {s s' : Arena} {p : Pointer} {count : Int32} {n a : Nat}

structure Filled (s s' : Arena) (p : Pointer) (n : Nat) : Prop where
  addr : p.addr = base p + header
  arena : s' = s.withRamp (base p) n
  frame : ∀ i, ¬Region.Contains [⟨p.addr, n * 8⟩] i →
    s'.memory.byte i = (s.withBlock (base p) (n * 8)).memory.byte i
  recorded : (payload s'.memory p).toNat = n * 8
  size : (Call.blockSize p).run s'.memory = (.size (.ofNat (n * 8)), s'.memory)
  slots : ∀ j < n, s'.memory.load Binary64 (p.addr + j * 8) = Binary64.ofInt (j : Nat)

theorem filled (hlayout : layout? (n * 8) = some (n * 8 + header))
    (hlt : a + header < addressSpace) : Filled s (s.withRamp a n) (.ofAddr (a + header)) n := by
  have haddr := Pointer.addr_ofAddr hlt
  have hbase := base_ofAddr hlt
  have hrecorded := recorded_of_rewrites hlayout hlt (s.rewrites_withRamp a n)
  refine ⟨by rw [haddr, hbase], by rw [hbase], ?_, toNat_payload hrecorded, ?_, ?_⟩
  · rw [haddr, hbase]
    exact fun i hi => (s.rewrites_withRamp a n).byte_eq hi
  · simp only [Call.run, payloadOrZero, hrecorded.notNull, hrecorded.payload, Bool.false_eq_true,
      if_false]
  · intro j hj
    have hitem : j < (Ramp.ofCount n).items.length := by
      rw [Ramp.length_items]
      exact hj
    have hload := (s.withBlock a (n * 8)).memory.load_storeArray (a + header) _ j hitem
    rw [haddr, Arena.memory_withRamp]
    refine hload.trans ?_
    simp only [Ramp.items_ofCount, List.getElem_map, List.getElem_range]

theorem allocateDoubles_of_refused (h : Refused A s (elementCount count * 8)) :
    ∃ s', allocateDoubles A s count = (.null, s') := by
  rw [← length_rampBytes] at h
  obtain ⟨s', heq, -⟩ := supply_of_refused h
  exact ⟨s', by rw [allocateDoubles_eq, heq]⟩

theorem allocateDoubles_of_granted (hfit : elementCount count * 8 < addressSpace)
    (hlayout : layout? (elementCount count * 8) = some (elementCount count * 8 + header))
    (hlt : a + header < addressSpace) (hpos : 0 < a)
    (ha : A s.requests (elementCount count * 8 + header) header = some a) :
    allocateDoubles A s count = (.ofAddr (a + header), s.withRamp a (elementCount count)) := by
  have hnull := Pointer.isNull_ofAddr (Nat.add_pos_left hpos header) hlt
  simp only [allocateDoubles, hfit, if_true, allocate_of_granted hlayout ha, fill, hnull,
    Bool.false_eq_true, if_false, Pointer.addr_ofAddr hlt, Arena.withRamp,
    Memory.storeSlots_enumerate, Memory.storeArray]

end Block

theorem double_blocks_filled_slot_by_slot :
    (∀ n k : Nat,
      ((Ramp.ofCount n).take k).1 =
        (List.range (min k n)).map (fun j => Binary64.ofInt (j : Nat)) ∧
      ((Ramp.ofCount n).take k).2.left = n - min k n) ∧
    (∀ n : Nat,
      (Ramp.ofCount n).enumerate 0 = (List.range n).map fun j => (Binary64.ofInt (j : Nat), j)) ∧
    (∀ n a i : Nat, ((Ramp.ofCount n).enumerate 0).countP (slotCovers a i) =
      if Region.Contains [⟨a, n * 8⟩] i then 1 else 0) ∧
    ∀ (count : Int32) (n : Nat), (n : Int) = max count.toInt 0 →
      n * 8 < addressSpace ∧ Block.layout? (n * 8) = some (n * 8 + Block.header) ∧
      (∀ j < n, (Binary64.ofInt (j : Nat)).toRat? = some (j : ℚ)) ∧
      ∀ (A : Allocator) (s : Arena) (live : Region),
        A.SoundAt s.requests (n * 8 + Block.header) Block.header live →
        ∃ p s', (HeapCall.allocateDoubles count).runIn A s = .returned (.pointer p, s') ∧
          (p.isNull = true ↔ A s.requests (n * 8 + Block.header) Block.header = none) ∧
          (p.isNull = false → Block.Filled s s' p n) := by
  refine ⟨Ramp.take_ofCount, Ramp.enumerate_ofCount, fun n a i => countP_enumerate a i n, ?_⟩
  intro count n hn
  obtain rfl : elementCount count = n := by
    have hcount := natCast_elementCount count
    exact Int.ofNat.inj (hcount.trans hn.symm)
  have hsmall := elementCount_lt count
  have hfit : elementCount count * 8 < addressSpace := by
    rw [addressSpace]
    omega
  have hlayout : Block.layout? (elementCount count * 8) =
      some (elementCount count * 8 + Block.header) := by
    refine Block.layout?_eq_some_iff.mpr ⟨rfl, ?_⟩
    rw [Block.header]
    omega
  refine ⟨hfit, hlayout, ?_, ?_⟩
  · intro j hj
    have hexact : ((j : Nat) : Int).natAbs < 2 ^ 53 := by omega
    have hvalue := ((Binary64.eq_ofInt_iff hexact).mp rfl).1
    exact_mod_cast hvalue
  · intro A s live hsound
    cases ha : A s.requests (elementCount count * 8 + Block.header) Block.header with
    | none =>
      obtain ⟨s', heq⟩ := Block.allocateDoubles_of_refused (Or.inr ha)
      refine ⟨.null, s', ?_, iff_of_true Pointer.isNull_null rfl, ?_⟩
      · rw [HeapCall.runIn, heq]
      · rw [Pointer.isNull_null]
        exact fun h => absurd h.symm Bool.false_ne_true
    | some a =>
      obtain ⟨hpos, hend, -⟩ := hsound a ha
      have hlt : a + Block.header < addressSpace := by omega
      refine ⟨.ofAddr (a + Block.header), s.withRamp a (elementCount count), ?_, ?_, ?_⟩
      · rw [HeapCall.runIn, Block.allocateDoubles_of_granted hfit hlayout hlt hpos ha]
      · rw [Pointer.isNull_ofAddr (Nat.add_pos_left hpos _) hlt]
        simp only [Bool.false_eq_true, reduceCtorEq]
      · exact fun _ => Block.filled hlayout hlt

theorem double_blocks_filled_slot_by_slot_stretches :
    (Binary64.ofInt (2 : Nat)).toRat? = some ((2 : Nat) : ℚ) ∧
    (∃ p s', (HeapCall.allocateDoubles 3).runIn stretches beginning.arena =
        .returned (.pointer p, s') ∧
      p.isNull = false ∧ Block.Filled beginning.arena s' p 3) ∧
    (∃ p s', (HeapCall.allocateDoubles (-4)).runIn stretches beginning.arena =
        .returned (.pointer p, s') ∧
      p.isNull = false ∧ Block.Filled beginning.arena s' p 0) ∧
    ∃ p s', (HeapCall.allocateDoubles 3).runIn onlyFirst { beginning.arena with requests := 1 } =
        .returned (.pointer p, s') ∧
      p.isNull = true := by
  obtain ⟨-, -, -, hcount⟩ := double_blocks_filled_slot_by_slot
  obtain ⟨-, -, hvalue, hthree⟩ := hcount 3 3 (by decide)
  obtain ⟨-, -, -, hnone⟩ := hcount (-4) 0 (by decide)
  refine ⟨hvalue 2 (by decide), ?_, ?_, ?_⟩
  · obtain ⟨p, s', hrun, hnull, hfilled⟩ :=
      hthree stretches beginning.arena [] (soundAt_stretches (by decide))
    have hp : p.isNull = false := by
      rw [← Bool.not_eq_true, hnull]
      exact Option.some_ne_none _
    exact ⟨p, s', hrun, hp, hfilled hp⟩
  · obtain ⟨p, s', hrun, hnull, hfilled⟩ :=
      hnone stretches beginning.arena [] (soundAt_stretches (by decide))
    have hp : p.isNull = false := by
      rw [← Bool.not_eq_true, hnull]
      exact Option.some_ne_none _
    exact ⟨p, s', hrun, hp, hfilled hp⟩
  · obtain ⟨p, s', hrun, hnull, -⟩ := hthree onlyFirst { beginning.arena with requests := 1 } []
      (by rintro a ⟨⟩)
    exact ⟨p, s', hrun, hnull.mpr rfl⟩

end AbiConformance
