import AbiConformance.Heap.Block
import AbiConformance.Heap.Counter
import AbiConformance.Proofs.Memory.Region
import AbiConformance.Proofs.Record.Increment

namespace AbiConformance

def Allocator.SoundAt (A : Allocator) (request size align : Nat) (live : Region) : Prop :=
  ∀ a, A request size align = some a →
    0 < a ∧ a + size < addressSpace ∧ Region.Disjoint [⟨a, size⟩] live

theorem Ledger.signedSize_of_le {n : Nat} (h : n ≤ 2 ^ 63 - 1) :
    Ledger.signedSize n = Int64.ofNat n := by
  rw [Ledger.signedSize, Nat.min_eq_left h]

namespace Arena

@[simp] theorem memory_emit (s : Arena) (e : Event) : (s.emit e).memory = s.memory := rfl

@[simp] theorem outstanding_emit (s : Arena) (e : Event) :
    (s.emit e).outstanding = s.outstanding := rfl

@[simp] theorem memory_free (s : Arena) (a size : Nat) : (s.free a size).memory = s.memory := rfl

@[simp] theorem outstanding_free (s : Arena) (a size : Nat) :
    (s.free a size).outstanding = s.outstanding - Ledger.signedSize size :=
  (Int64.sub_eq_add_neg ..).symm

theorem request_none {A : Allocator} {s s' : Arena} {size align : Nat}
    (h : s.request A size align = (none, s')) :
    s'.memory = s.memory ∧ s'.outstanding = s.outstanding := by
  unfold request at h
  split at h
  · cases h
    exact ⟨rfl, rfl⟩
  · cases h

structure Granted (A : Allocator) (s s' : Arena) (size align a : Nat) : Prop where
  answer : A s.requests size align = some a
  requests : s'.requests = s.requests + 1
  memory : s'.memory = s.memory
  outstanding : s'.outstanding = s.outstanding + Ledger.signedSize size

theorem request_some {A : Allocator} {s s' : Arena} {size align a : Nat}
    (h : s.request A size align = (some a, s')) : Granted A s s' size align a := by
  unfold request at h
  split at h
  · cases h
  · rename_i b hb
    cases h
    exact ⟨hb, rfl, rfl, rfl⟩

theorem outstanding_scratch {A : Allocator} {s s' : Arena} {size align : Nat}
    (h : s.scratch A size align = .returned s') : s'.outstanding = s.outstanding := by
  unfold scratch at h
  split at h
  · cases h
    rfl
  · split at h
    · cases h
    · rename_i a s₁ hs₁
      cases h
      rw [outstanding_free, (request_some hs₁).outstanding]
      exact Int64.add_sub_cancel ..

end Arena

namespace Block

theorem layout?_eq_some_iff {n size : Nat} :
    layout? n = some size ↔ size = n + header ∧ n + header ≤ 2 ^ 63 - 16 := by
  constructor
  · intro h
    unfold layout? at h
    split at h
    · rename_i hfit
      cases h
      refine ⟨rfl, ?_⟩
      simp only [maxLayout, Layout.roundUp, header] at hfit ⊢
      omega
    · cases h
  · rintro ⟨rfl, hle⟩
    rw [layout?, if_pos]
    simp only [addressSpace, maxLayout, Layout.roundUp, header] at hle ⊢
    omega

theorem layout?_eq_some {n size : Nat} (h : layout? n = some size) :
    size = n + header ∧ n + header ≤ 2 ^ 63 - 1 := by
  obtain ⟨hsize, hle⟩ := layout?_eq_some_iff.mp h
  exact ⟨hsize, by omega⟩

structure Fresh (s s' : Arena) (live : Region) (p : Pointer) (n : Nat) : Prop where
  notNull : p.isNull = false
  layout : layout? n = some (n + header)
  payload : Block.payload s'.memory p = UInt64.ofNat n
  apart : Region.Disjoint [⟨base p, n + header⟩] live
  frame : ∀ i, ¬Region.Contains [⟨base p, n + header⟩] i → s'.memory.byte i = s.memory.byte i
  outstanding : s'.outstanding = s.outstanding + Int64.ofNat (n + header)

structure Placed (A : Allocator) (s s' : Arena) (n a : Nat) : Prop where
  layout : layout? n = some (n + header)
  answer : A s.requests (n + header) header = some a
  memory : s'.memory = s.memory.store a (UInt64.ofNat n)
  outstanding : s'.outstanding = s.outstanding + Int64.ofNat (n + header)

theorem allocate_cases (A : Allocator) (s : Arena) (n : Nat) :
    (∃ s', allocate A s n = (.null, s') ∧ s'.memory = s.memory ∧
      s'.outstanding = s.outstanding) ∨
    ∃ a s', allocate A s n = (.ofAddr (a + header), s') ∧ Placed A s s' n a := by
  unfold allocate
  split
  · exact Or.inl ⟨s, rfl, rfl, rfl⟩
  · rename_i size hsize
    obtain ⟨rfl, hmax⟩ := layout?_eq_some hsize
    split
    · rename_i s₁ hs₁
      exact Or.inl ⟨s₁, rfl, Arena.request_none hs₁⟩
    · rename_i a s₁ hs₁
      have hgrant := Arena.request_some hs₁
      refine Or.inr ⟨a, _, rfl, hsize, hgrant.answer, ?_, ?_⟩
      · rw [Arena.memory_emit, hgrant.memory]
      · rw [Arena.outstanding_emit, ← Ledger.signedSize_of_le hmax]
        exact hgrant.outstanding

theorem base_ofAddr {a : Nat} (h : a + header < addressSpace) :
    base (.ofAddr (a + header)) = a := by
  rw [base, Pointer.addr_ofAddr h]
  omega

def supply (A : Allocator) (s : Arena) (bytes : List UInt8) : Pointer × Arena :=
  let (p, s') := allocate A s bytes.length
  (p, fill s' p bytes)

theorem Placed.fresh {A : Allocator} {s s' : Arena} {live : Region} {bytes : List UInt8} {a : Nat}
    (h : Placed A s s' bytes.length a)
    (hsound : A.SoundAt s.requests (bytes.length + header) header live) :
    Fresh s (fill s' (.ofAddr (a + header)) bytes) live (.ofAddr (a + header)) bytes.length := by
  obtain ⟨hpos, hend, hapart⟩ := hsound a h.answer
  have hlt : a + header < addressSpace := by omega
  have haddr : (Pointer.ofAddr (a + header)).addr = a + header := Pointer.addr_ofAddr hlt
  have hbase := base_ofAddr hlt
  have hnull : (Pointer.ofAddr (a + header)).isNull = false :=
    Pointer.isNull_ofAddr (by omega) hlt
  have hmem : (fill s' (.ofAddr (a + header)) bytes).memory =
      (s.memory.store a (UInt64.ofNat bytes.length)).write (a + header) bytes := by
    simp only [fill, hnull, Bool.false_eq_true, if_false, h.memory, haddr]
  refine ⟨hnull, h.layout, ?_, by rwa [hbase], ?_, ?_⟩
  · have hload : ((s.memory.store a (UInt64.ofNat bytes.length)).write (a + header) bytes).load
        UInt64 a = (s.memory.store a (UInt64.ofNat bytes.length)).load UInt64 a :=
      Memory.load_of_read_eq (Memory.read_write_of_disjoint (by simp [header]))
    rw [payload, hbase, hmem, hload, Memory.load_store]
  · intro i hi
    rw [hbase, Region.not_contains_singleton, header] at hi
    rw [hmem, Memory.byte_write_of_not_mem (by rw [header]; omega),
      Memory.byte_store_of_not_mem (by rw [Scalar.width_uint64]; omega)]
  · simp only [fill, hnull, Bool.false_eq_true, if_false]
    exact h.outstanding

theorem supply_cases {A : Allocator} {s : Arena} {live : Region} {bytes : List UInt8}
    (h : A.SoundAt s.requests (bytes.length + header) header live) :
    (∃ s', supply A s bytes = (.null, s') ∧ s'.memory = s.memory ∧
      s'.outstanding = s.outstanding) ∨
    ∃ p s', supply A s bytes = (p, s') ∧ Fresh s s' live p bytes.length := by
  rcases allocate_cases A s bytes.length with ⟨s', heq, hsame⟩ | ⟨a, s', heq, hplaced⟩
  · exact Or.inl ⟨s', by simp [supply, heq, fill], hsame⟩
  · exact Or.inr ⟨_, _, by simp only [supply, heq], hplaced.fresh h⟩

theorem allocateText_eq (A : Allocator) (s : Arena) (source : Pointer) :
    allocateText A s source = supply A s (s.memory.stringAt source) := rfl

theorem length_encode_ramp (n : Nat) :
    ((Ramp.ofCount n).items.flatMap Scalar.encode).length = n * 8 := by
  rw [Memory.length_flatMap_encode, Ramp.length_items, Scalar.width_binary64]
  rfl

def rampBytes (count : Int32) : List UInt8 :=
  (Ramp.ofCount (elementCount count)).items.flatMap Scalar.encode

theorem length_rampBytes (count : Int32) :
    (rampBytes count).length = elementCount count * 8 :=
  length_encode_ramp _

theorem allocateDoubles_eq (A : Allocator) (s : Arena) (count : Int32) :
    allocateDoubles A s count = supply A s (rampBytes count) := by
  have hlt : elementCount count * 8 < addressSpace := by
    have hcount := elementCount_lt count
    rw [addressSpace]
    omega
  simp only [allocateDoubles, hlt, if_true, supply, length_rampBytes]
  rfl

theorem release_null {s : Arena} {p : Pointer} (h : p.isNull = true) : release s p = s := by
  simp [release, h]

theorem release_memory (s : Arena) (p : Pointer) : (release s p).memory = s.memory := by
  unfold release
  split
  · rfl
  · dsimp only
    split <;> rfl

theorem release_eq {s : Arena} {p : Pointer} {n : Nat} (hp : p.isNull = false)
    (hn : payload s.memory p = UInt64.ofNat n) (hl : layout? n = some (n + header)) :
    release s p = (s.emit (.blockReleased n)).free (base p) (n + header) := by
  have hmax := (layout?_eq_some hl).2
  have hnat : (payload s.memory p).toNat = n := by
    rw [hn, UInt64.toNat_ofNat']
    apply Nat.mod_eq_of_lt
    omega
  simp only [release, hp, hnat, hl, Bool.false_eq_true, if_false]

theorem release_of_layout {s : Arena} {p : Pointer} {n : Nat} (hp : p.isNull = false)
    (hn : payload s.memory p = UInt64.ofNat n) (hl : layout? n = some (n + header)) :
    (release s p).outstanding = s.outstanding - Int64.ofNat (n + header) := by
  rw [release_eq hp hn hl, Arena.outstanding_free, Arena.outstanding_emit,
    Ledger.signedSize_of_le (layout?_eq_some hl).2]

end Block

namespace CounterRecord

open Memory

def extent (m : Memory) (p : Pointer) : Region :=
  [⟨p.addr, size⟩, ⟨(targetOf m p).addr, targetSize⟩]

structure Fresh (s s' : Arena) (live : Region) (p : Pointer) : Prop where
  notNull : p.isNull = false
  aimed : (targetOf s'.memory p).isNull = false
  apart : (extent s'.memory p).Disjoint live
  frame : ∀ i, ¬(extent s'.memory p).Contains i → s'.memory.byte i = s.memory.byte i
  outstanding : s'.outstanding = s.outstanding + Int64.ofNat (size + targetSize)

def SoundAt (A : Allocator) (request : Nat) (live : Region) : Prop :=
  A.SoundAt request targetSize 4 live ∧ ∀ d, A request targetSize 4 = some d →
    A.SoundAt (request + 1) size 8 (⟨d, targetSize⟩ :: live)

theorem targetOf_store {m : Memory} {a : Nat} {r : CounterRecord} (ha : a < addressSpace) :
    targetOf (store m a r) (.ofAddr a) = r.d := by
  simp only [targetOf, load, store, Pointer.addr_ofAddr ha, load_store]

theorem byte_store_of_not_contains {m : Memory} {a i : Nat} {r : CounterRecord}
    (h : ¬Region.Contains [⟨a, size⟩] i) : (store m a r).byte i = m.byte i := by
  rw [Region.not_contains_singleton, size] at h
  simp only [store]
  rw [byte_store_of_not_mem (by simp; omega), byte_store_of_not_mem (by simp; omega),
    byte_store_of_not_mem (by simp; omega), byte_store_of_not_mem (by simp; omega)]

structure Placed (A : Allocator) (s s' : Arena) (d r : Nat) : Prop where
  target : A s.requests targetSize 4 = some d
  record : A (s.requests + 1) size 8 = some r
  memory : s'.memory = store (s.memory.store d CounterRecord.target) r ⟨1, 2, 3, .ofAddr d⟩
  outstanding : s'.outstanding = s.outstanding + Int64.ofNat (size + targetSize)

theorem allocate_placed {A : Allocator} {s s' : Arena} {p : Pointer}
    (h : allocate A s = .returned (p, s')) : ∃ d r, p = .ofAddr r ∧ Placed A s s' d r := by
  unfold allocate at h
  split at h
  · cases h
  · rename_i d s₁ hs₁
    have hd := Arena.request_some hs₁
    split at h
    · cases h
    · rename_i r s₂ hs₂
      have hr := Arena.request_some hs₂
      cases h
      refine ⟨d, r, rfl, hd.answer, ?_, ?_, ?_⟩
      · rw [← hd.requests]
        exact hr.answer
      · rw [Arena.memory_emit, hr.memory, hd.memory]
      · rw [Arena.outstanding_emit]
        refine hr.outstanding.trans ?_
        rw [hd.outstanding, Int64.add_assoc]
        rfl

theorem Placed.targetOf_eq {A : Allocator} {s s' : Arena} {d r : Nat} (h : Placed A s s' d r)
    (hr : r < addressSpace) : targetOf s'.memory (.ofAddr r) = .ofAddr d := by
  rw [h.memory, targetOf_store hr]

theorem Placed.fresh {A : Allocator} {s s' : Arena} {live : Region} {d r : Nat}
    (h : Placed A s s' d r) (hsound : SoundAt A s.requests live) :
    Fresh s s' live (.ofAddr r) := by
  obtain ⟨hdpos, hdend, hdapart⟩ := hsound.1 d h.target
  obtain ⟨hrpos, hrend, hrapart⟩ := hsound.2 d h.target r h.record
  have hdlt : d < addressSpace := by omega
  have hrlt : r < addressSpace := by omega
  have haim := h.targetOf_eq hrlt
  have hextent : extent s'.memory (.ofAddr r) = [⟨r, size⟩] ++ [⟨d, targetSize⟩] := by
    rw [extent, haim, Pointer.addr_ofAddr hrlt, Pointer.addr_ofAddr hdlt]
    rfl
  refine ⟨Pointer.isNull_ofAddr hrpos hrlt, ?_, ?_, ?_, h.outstanding⟩
  · rw [haim]
    exact Pointer.isNull_ofAddr hdpos hdlt
  · rw [hextent]
    intro i hi hlive
    rcases Region.contains_append.mp hi with hi | hi
    · exact hrapart i hi (Region.contains_cons.mpr (Or.inr hlive))
    · exact hdapart i hi hlive
  · intro i hi
    rw [hextent, Region.contains_append, not_or] at hi
    rw [h.memory, byte_store_of_not_contains hi.1]
    have hout := Region.not_contains_singleton.mp hi.2
    exact byte_store_of_not_mem hout

theorem free_null {s : Arena} {p : Pointer} (h : p.isNull = true) : free s p = s := by
  simp [free, h]

theorem free_memory (s : Arena) (p : Pointer) : (free s p).memory = s.memory := by
  unfold free
  split
  · rfl
  · simp only [Arena.memory_free, Arena.memory_emit]
    split <;> rfl

theorem free_of_null_target {s : Arena} {p : Pointer} (hp : p.isNull = false)
    (hd : (targetOf s.memory p).isNull = true) :
    (free s p).outstanding = s.outstanding - Int64.ofNat size := by
  rw [targetOf] at hd
  simp only [free, hp, hd, Bool.false_eq_true, if_false, if_true, Arena.outstanding_free,
    Arena.outstanding_emit]
  rfl

theorem free_of_target {s : Arena} {p : Pointer} (hp : p.isNull = false)
    (hd : (targetOf s.memory p).isNull = false) :
    (free s p).outstanding = s.outstanding - Int64.ofNat (size + targetSize) := by
  rw [targetOf] at hd
  have hsizes : Int64.ofNat (size + targetSize) =
      Ledger.signedSize targetSize + Ledger.signedSize size := rfl
  simp only [free, hp, hd, Bool.false_eq_true, if_false, Arena.outstanding_free,
    Arena.outstanding_emit, hsizes]
  exact Int64.sub_sub ..

end CounterRecord

end AbiConformance
