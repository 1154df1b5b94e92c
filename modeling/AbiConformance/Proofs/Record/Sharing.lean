import AbiConformance.Proofs.Record.IncrementAction
import AbiConformance.Proofs.Record.Transfer

namespace AbiConformance

open Memory

namespace CounterRecord

structure Sharing (m : Memory) (p q d : Pointer) : Prop where
  apart : Region.Disjoint [⟨p.addr, size⟩] [⟨q.addr, size⟩]
  left : targetOf m p = d
  right : targetOf m q = d
  outside_left : Placement.outside.Of p.addr d
  outside_right : Placement.outside.Of q.addr d

theorem within_of_mem_counterSpans {a : Nat} {x : Span} (hx : x ∈ counterSpans a) :
    a ≤ x.addr ∧ x.addr + x.size ≤ a + size := by
  simp only [counterSpans, List.mem_cons, List.not_mem_nil, or_false] at hx
  rcases hx with rfl | rfl | rfl <;> simp [size]

namespace Sharing

variable {m : Memory} {p q d : Pointer}

theorem symm (h : Sharing m p q d) : Sharing m q p d where
  apart i hq hp := h.apart i hp hq
  left := h.right
  right := h.left
  outside_left := h.outside_right
  outside_right := h.outside_left

theorem load_left (h : Sharing m p q d) (inc : Int32) :
    load (incrementInPlace m p.addr inc) p.addr = (load m p.addr).grow inc := by
  apply load_incrementInPlace
  have hd : (load m p.addr).d = d := h.left
  rw [hd]
  exact h.outside_left

theorem load_right (h : Sharing m p q d) (inc : Int32) :
    load (incrementInPlace m p.addr inc) q.addr = load m q.addr := by
  have hdisjoint : (incrementSpans m p).Disjoint [⟨q.addr, size⟩] := by
    intro i hi
    rw [incrementSpans, h.left] at hi
    rcases Region.contains_append.mp hi with hi | hi
    · exact h.apart i (contains_of_counterSpans hi)
    · exact h.outside_right i hi
  have hagree : Agree (spans q.addr) m (incrementInPlace m p.addr inc) :=
    Agree.of_frame (hdisjoint.mono_right contains_of_spans) fun _ =>
      byte_incrementInPlace_of_not_contains
  exact (load_congr hagree (List.Subset.refl _)).symm

theorem targetOf_left (h : Sharing m p q d) (inc : Int32) :
    targetOf (incrementInPlace m p.addr inc) p = d := by
  rw [targetOf, h.load_left inc]
  exact h.left

theorem targetOf_right (h : Sharing m p q d) (inc : Int32) :
    targetOf (incrementInPlace m p.addr inc) q = d := by
  rw [targetOf, h.load_right inc]
  exact h.right

theorem increment (h : Sharing m p q d) (inc : Int32) :
    Sharing (incrementInPlace m p.addr inc) p q d :=
  ⟨h.apart, h.targetOf_left inc, h.targetOf_right inc, h.outside_left, h.outside_right⟩

theorem load_target (h : Sharing m p q d) (hd : d.isNull = false) (inc : Int32) :
    (incrementInPlace m p.addr inc).load Int32 d.addr = m.load Int32 d.addr + inc := by
  obtain rfl : (load m p.addr).d = d := h.left
  exact load_target_incrementInPlace inc (h.outside_left.mono_right contains_of_counterSpans) hd

theorem compatible_across (h : Sharing m p q d) {x y : Span} (hx : x ∈ incrementSpans m p)
    (hy : y ∈ incrementSpans m q) : x.Compatible y := by
  rw [incrementSpans, h.left] at hx
  rw [incrementSpans, h.right] at hy
  rcases List.mem_append.mp hx with hxp | hxd
  · rcases List.mem_append.mp hy with hyq | hyd
    · have hp := within_of_mem_counterSpans hxp
      have hq := within_of_mem_counterSpans hyq
      have hapart := Region.apart_of_disjoint (by decide) (by decide) h.apart
      simp only [Span.Compatible]
      omega
    · exact compatible_of_outside h.outside_left x hx y (List.mem_append_right _ hyd)
  · exact compatible_of_outside h.outside_right x (List.mem_append_right _ hxd) y hy

theorem compatible (h : Sharing m p q d) {i j : Int} {x y : Addend}
    (hx : x ∈ spread (incrementSpans m p) i ++ spread (incrementSpans m q) j)
    (hy : y ∈ spread (incrementSpans m p) i ++ spread (incrementSpans m q) j) :
    x.word.Compatible y.word := by
  have hwithin : ∀ {r : Pointer}, targetOf m r = d → Placement.outside.Of r.addr d →
      ∀ x ∈ incrementSpans m r, ∀ y ∈ incrementSpans m r, x.Compatible y := by
    rintro r rfl hout
    exact compatible_of_outside hout
  rcases List.mem_append.mp hx with hx | hx <;> rcases List.mem_append.mp hy with hy | hy <;>
    replace hx := mem_of_mem_spread hx <;> replace hy := mem_of_mem_spread hy
  · exact hwithin h.left h.outside_left _ hx _ hy
  · exact h.compatible_across hx hy
  · exact (h.compatible_across hy hx).symm
  · exact hwithin h.right h.outside_right _ hx _ hy

end Sharing

theorem incrementEach_pair_eq (m : Memory) (p q : Pointer) (i j : Int32) :
    incrementEach m [(p, i), (q, j)] =
      incrementInPlace (incrementInPlace m p.addr i) q.addr j := by
  simp only [incrementEach, List.foldl_cons, List.foldl_nil, Call.run]

namespace Sharing

variable {m : Memory} {p q d : Pointer} (i j : Int32)

theorem incrementEach_eq_addAll (h : Sharing m p q d) :
    incrementEach m [(p, i), (q, j)] =
      m.addAll (spread (incrementSpans m p) i.toInt ++ spread (incrementSpans m q) j.toInt) := by
  have hspans : incrementSpans (incrementInPlace m p.addr i) q = incrementSpans m q := by
    rw [incrementSpans, incrementSpans, h.targetOf_right i, h.right]
  rw [incrementEach_pair_eq, incrementInPlace_eq_addAll _ q, hspans, incrementInPlace_eq_addAll,
    addAll_append]

theorem incrementEach_swap (h : Sharing m p q d) :
    incrementEach m [(q, j), (p, i)] = incrementEach m [(p, i), (q, j)] := by
  rw [h.incrementEach_eq_addAll, h.symm.incrementEach_eq_addAll]
  apply addAll_perm m List.perm_append_comm
  exact fun x hx y hy => h.symm.compatible hx hy

theorem load_first (h : Sharing m p q d) :
    load (incrementEach m [(p, i), (q, j)]) p.addr = (load m p.addr).grow i := by
  rw [incrementEach_pair_eq, (h.increment i).symm.load_right j, h.load_left i]

theorem load_second (h : Sharing m p q d) :
    load (incrementEach m [(p, i), (q, j)]) q.addr = (load m q.addr).grow j := by
  rw [incrementEach_pair_eq, (h.increment i).symm.load_left j, h.load_right i]

theorem load_target_pair (h : Sharing m p q d) (hd : d.isNull = false) :
    (incrementEach m [(p, i), (q, j)]).load Int32 d.addr = m.load Int32 d.addr + (i + j) := by
  rw [incrementEach_pair_eq, (h.increment i).symm.load_target hd j, h.load_target hd i,
    Int32.add_assoc]

theorem byte_incrementEach_of_not_contains (h : Sharing m p q d) {a : Nat}
    (ha : ¬(counterSpans p.addr ++ counterSpans q.addr ++ d.span 4).Contains a) :
    (incrementEach m [(p, i), (q, j)]).byte a = m.byte a := by
  simp only [Region.contains_append, not_or] at ha
  rw [incrementEach_pair_eq, byte_incrementInPlace_of_not_contains,
    byte_incrementInPlace_of_not_contains]
  · simp only [incrementSpans, h.left, Region.contains_append, not_or]
    exact ⟨ha.1.1, ha.2⟩
  · simp only [incrementSpans, h.targetOf_right i, Region.contains_append, not_or]
    exact ⟨ha.1.2, ha.2⟩

end Sharing

end CounterRecord

namespace CompositeRecord

open CounterRecord (incrementEach counterSpans)

def partAt (p : Pointer) (i : Fin 3) : Pointer := .ofAddr (p.addr + 8 + i * CounterRecord.size)

structure Fresh (m : Memory) (first p : Pointer) : Prop where
  present : first.isNull = false
  aimed : (CounterRecord.load m first.addr).d.isNull = false
  room : p.addr + size ≤ addressSpace
  clear : Region.Disjoint [⟨p.addr, size⟩] [⟨first.addr, CounterRecord.size⟩]
  target_clear : Region.Disjoint [⟨p.addr, size⟩] ((CounterRecord.load m first.addr).d.span 4)
  target_outside : CounterRecord.Placement.outside.Of first.addr (CounterRecord.load m first.addr).d

theorem load_store (m : Memory) (base : Nat) (r : CompositeRecord) :
    load (store m base r) base = r := by
  rw [← shows_slots, store_eq_place]
  exact shows_place r.packed_slots

theorem agree_store {s : Region} {base : Nat} (m : Memory) (r : CompositeRecord)
    (h : Region.Disjoint [⟨base, size⟩] s) : Agree s m (store m base r) := by
  apply Agree.of_frame h
  intro i hi
  rw [store_eq_place]
  exact byte_place_of_not_mem r.packed_slots (Region.not_contains_singleton.mp hi)

namespace Fresh

variable {m : Memory} {first p : Pointer}

theorem addr_partAt (h : Fresh m first p) (i : Fin 3) :
    (partAt p i).addr = p.addr + 8 + i * CounterRecord.size := by
  have hroom := h.room
  simp only [size] at hroom
  exact Pointer.addr_ofAddr (by simp only [CounterRecord.size]; omega)

theorem load_first (h : Fresh m first p) (r : CompositeRecord) :
    CounterRecord.load (store m p.addr r) first.addr = CounterRecord.load m first.addr := by
  have hagree := agree_store m r (h.clear.mono_right CounterRecord.contains_of_spans)
  exact (CounterRecord.load_congr hagree (List.Subset.refl _)).symm

theorem load_part (h : Fresh m first p) (r : CompositeRecord) (i : Fin 3) :
    CounterRecord.load (store m p.addr r) (partAt p i).addr = r.parts.get i := by
  have hparts := parts_load_eq_iff.mp (congrArg parts (load_store m p.addr r)) i
  rw [h.addr_partAt]
  exact hparts

theorem load_target (h : Fresh m first p) (r : CompositeRecord) :
    (store m p.addr r).load Int32 (CounterRecord.load m first.addr).d.addr =
      m.load Int32 (CounterRecord.load m first.addr).d.addr := by
  have hagree := agree_store m r h.target_clear
  rw [Pointer.span_of_not_null h.aimed] at hagree
  exact (hagree.load List.mem_cons_self rfl).symm

theorem sharing (h : Fresh m first p) {r : CompositeRecord} {k : Fin 3}
    (hr : r.parts.get k = CounterRecord.load m first.addr) :
    CounterRecord.Sharing (store m p.addr r) first (partAt p k)
      (CounterRecord.load m first.addr).d := by
  have hinside : ∀ {i}, Region.Contains [⟨(partAt p k).addr, CounterRecord.size⟩] i →
      Region.Contains [⟨p.addr, size⟩] i := by
    intro i hi
    rw [Region.contains_singleton, h.addr_partAt] at hi
    simp only [CounterRecord.size] at hi
    rw [Region.contains_singleton, size]
    omega
  refine ⟨fun i hf hc => h.clear i (hinside hc) hf, ?_, ?_, h.target_outside,
    fun i ht hc => h.target_clear i (hinside hc) ht⟩
  · rw [CounterRecord.targetOf, h.load_first]
  · rw [CounterRecord.targetOf, h.load_part, hr]

end Fresh

theorem build_copies_and_borrows (m : Memory) (first second message : Pointer) :
    ∃ r : CompositeRecord,
      (Call.buildComposite first second message).run m = (.composite r, m) ∧
      r.first = first ∧ r.message = message ∧
      r.parts = #v[if second.isNull then ⟨0, 0, 0, .null⟩ else CounterRecord.load m second.addr,
        if first.isNull then ⟨0, 0, 0, .null⟩ else CounterRecord.load m first.addr,
        ⟨0, 0, 0, .null⟩] ∧
      ∀ p : Pointer, Fresh m first p →
        let stored := (Value.composite r).store m p
        let old := CounterRecord.load m first.addr
        load stored p.addr = r ∧
        ∀ i j : Int32,
          let borrowed := (load stored p.addr).first
          let after := incrementEach stored [(borrowed, i), (partAt p 1, j)]
          incrementEach stored [(partAt p 1, j), (borrowed, i)] = after ∧
          CounterRecord.load after first.addr = old.grow i ∧
          CounterRecord.load after (partAt p 1).addr = old.grow j ∧
          after.load Int32 old.d.addr = m.load Int32 old.d.addr + (i + j) ∧
          ∀ a, ¬(counterSpans first.addr ++ counterSpans (partAt p 1).addr ++
            old.d.span 4).Contains a → after.byte a = stored.byte a := by
  have hparts : (build m first second message).parts =
      #v[if second.isNull then ⟨0, 0, 0, .null⟩ else CounterRecord.load m second.addr,
        if first.isNull then ⟨0, 0, 0, .null⟩ else CounterRecord.load m first.addr,
        ⟨0, 0, 0, .null⟩] := rfl
  refine ⟨build m first second message, rfl, rfl, rfl, hparts, ?_⟩
  intro p h
  have hfirst : (build m first second message).first = first := rfl
  generalize build m first second message = r at hfirst hparts ⊢
  have hpart : r.parts.get 1 = CounterRecord.load m first.addr := by
    rw [hparts]
    exact if_neg (Bool.eq_false_iff.mp h.present)
  have hshare := h.sharing hpart
  simp only [Value.store, load_store, hfirst]
  refine ⟨trivial, fun i j => ⟨hshare.incrementEach_swap i j, ?_, ?_, ?_, ?_⟩⟩
  · rw [hshare.load_first, h.load_first]
  · rw [hshare.load_second, h.load_part, hpart]
  · rw [hshare.load_target_pair i j h.aimed, h.load_target]
  · intro a ha
    exact hshare.byte_incrementEach_of_not_contains i j ha

def lent : Memory :=
  (CounterRecord.store .empty 64 ⟨0x7FFFFFFF, -1, 3, .ofAddr 128⟩).store 128 (5 : Int32)

theorem build_copies_and_borrows_lent :
    let first := Pointer.ofAddr 64
    let p := Pointer.ofAddr 256
    let stored := ((Call.buildComposite first .null first).run lent).1.store lent p
    let after := incrementEach stored [(first, 1), (partAt p 1, -9)]
    Fresh lent first p ∧ incrementEach stored [(partAt p 1, -9), (first, 1)] = after ∧
      CounterRecord.load after first.addr = ⟨-0x80000000, 0, 4, .ofAddr 128⟩ ∧
      CounterRecord.load after (partAt p 1).addr = ⟨0x7FFFFFF6, -10, -6, .ofAddr 128⟩ ∧
      after.load Int32 128 = -3 := by
  have h : Fresh lent (.ofAddr 64) (.ofAddr 256) := by
    refine ⟨by decide, by decide +kernel, by decide, ?_, ?_, ?_⟩ <;>
      exact Region.disjoint_of_apart (by decide +kernel)
  obtain ⟨r, hrun, hfirst, -, -, hkept⟩ :=
    build_copies_and_borrows lent (.ofAddr 64) .null (.ofAddr 64)
  obtain ⟨hload, hboth⟩ := hkept (.ofAddr 256) h
  obtain ⟨hswap, hlent, hcopy, htarget, -⟩ := hboth 1 (-9)
  rw [hload, hfirst] at hswap hlent hcopy htarget
  simp only [hrun]
  refine ⟨h, hswap, hlent.trans (by decide +kernel), hcopy.trans (by decide +kernel),
    htarget.trans (by decide +kernel)⟩

end CompositeRecord

end AbiConformance
