import AbiConformance.Call.Basic
import AbiConformance.Proofs.Matrix.Footprint
import AbiConformance.Proofs.Record.Footprint

namespace AbiConformance

open Memory

def Memory.pairReads (left right : Pointer) (n : Nat) : Region :=
  if left.isNull || right.isNull then [] else left.span (n * 8) ++ right.span (n * 8)

namespace Call

def reads (m : Memory) : Call → Region
  | sumArray e data count => data.span (elementCount count * Scalar.width e.Carrier)
  | sumArrayPair left right count => pairReads left right (elementCount count)
  | sumMatrix e rows cols data =>
    let s := shapeOf rows cols
    data.span (s.rows * s.cols * Scalar.width e.Carrier)
  | sumMatrixRows e rows cols table =>
    m.tableReads (Scalar.width e.Carrier) (shapeOf rows cols) table
  | incrementArray data count => data.span (elementCount count * 8)
  | textLength text => m.stringSpan text
  | blockSize block => block.region fun _ => [⟨Block.base block, 8⟩]
  | total record => NumericRecord.spans record.addr
  | incrementCopy record _ => record.d.span 4
  | incrementInPlace record _ =>
    CounterRecord.spans record.addr ++ (CounterRecord.targetOf m record).span 4
  | buildComposite first second _ =>
    first.region CounterRecord.spans ++ second.region CounterRecord.spans
  | mutateLinked record => LinkedRecord.mutateReads m record.addr
  | _ => []

def writes (m : Memory) : Call → Region
  | assign e out _ => [⟨out.addr, Scalar.width e.Carrier⟩]
  | assignConverted out _ => [⟨out.addr, 8⟩]
  | incrementArray data count => data.span (elementCount count * 8)
  | incrementCopy record _ => record.d.span 4
  | incrementInPlace record _ => CounterRecord.incrementSpans m record
  | describeField kind index out =>
    if (FieldInfo.describe m kind index out).1 = 1 then [⟨out.addr, FieldInfo.width⟩] else []
  | mutateLinked record => LinkedRecord.mutateWrites m record.addr
  | _ => []

end Call

theorem Memory.byte_store_of_not_contains {α : Type} [Scalar α] {m : Memory} {r : Region}
    {a n i : Nat} {x : α} (h : ¬r.Contains i) (hs : ⟨a, n⟩ ∈ r) (hn : n = Scalar.width α) :
    (m.store a x).byte i = m.byte i :=
  byte_write_of_not_contains h (by rwa [Scalar.length_encode, ← hn])

theorem Memory.Agree.store {α : Type} [Scalar α] {r : Region} {m m' : Memory} (h : Agree r m m')
    (a : Nat) (x : α) : Agree r (m.store a x) (m'.store a x) :=
  h.write a (Scalar.encode x)

theorem Memory.incrementArray_congr {r : Region} {m m' : Memory} {data : Pointer} {count : Int32}
    (h : Agree r m m') (hs : data.span (elementCount count * 8) ⊆ r) :
    Agree r (m.incrementArray data count) (m'.incrementArray data count) := by
  have hslice : m.slice Binary64 data (elementCount count) =
      m'.slice Binary64 data (elementCount count) := h.slice hs
  rw [incrementArray, incrementArray, hslice]
  exact h.write _ _

theorem Memory.byte_incrementArray_of_not_contains {m : Memory} {data : Pointer} {count : Int32}
    {i : Nat} (h : ¬(data.span (elementCount count * 8)).Contains i) :
    (m.incrementArray data count).byte i = m.byte i := by
  cases hd : data.isNull with
  | true => simp [incrementArray, storeArray, slice, hd]
  | false =>
    apply byte_write_of_not_contains h
    rw [length_flatMap_encode, List.length_map, slice_of_not_null hd, length_loadArray]
    simp [hd]

theorem Memory.zip_slices_congr {m m' : Memory} {left right : Pointer} {n : Nat}
    (h : Agree (pairReads left right n) m m') :
    (m.slice Binary64 left n).zip (m.slice Binary64 right n) =
      (m'.slice Binary64 left n).zip (m'.slice Binary64 right n) := by
  cases hl : left.isNull with
  | true => simp [slice, hl]
  | false =>
    cases hr : right.isNull with
    | true => simp [slice, hr]
    | false =>
      simp only [pairReads, hl, hr, Bool.or_self, Bool.false_eq_true, if_false] at h
      have hleft : m.slice Binary64 left n = m'.slice Binary64 left n :=
        h.slice (List.subset_append_left _ _)
      have hright : m.slice Binary64 right n = m'.slice Binary64 right n :=
        h.slice (List.subset_append_right _ _)
      rw [hleft, hright]

theorem Block.payloadOrZero_congr {r : Region} {m m' : Memory} {p : Pointer} (h : Agree r m m')
    (hs : p.region (fun _ => [⟨base p, 8⟩]) ⊆ r) : payloadOrZero m p = payloadOrZero m' p := by
  cases hp : p.isNull with
  | true => simp [payloadOrZero, hp]
  | false =>
    have hload : m.load UInt64 (base p) = m'.load UInt64 (base p) := h.load (hs (by simp [hp])) rfl
    simp [payloadOrZero, payload, hp, hload]

namespace FieldInfo

theorem byte_store_of_not_contains {m : Memory} {a i : Nat} {info : FieldInfo}
    (h : ¬Region.Contains [⟨a, width⟩] i) : (store m a info).byte i = m.byte i := by
  rw [Region.not_contains_singleton, width] at h
  simp only [store]
  rw [byte_store_of_not_mem (by simp; omega), byte_store_of_not_mem (by simp; omega),
    byte_store_of_not_mem (by simp; omega), byte_store_of_not_mem (by simp; omega)]

theorem describe_cases (kind : Int32) (index : UInt32) (out : Pointer) :
    (∀ m, describe m kind index out = (0, m)) ∨
      ∃ info, ∀ m, describe m kind index out = (1, store m out.addr info) := by
  unfold describe
  split
  · exact Or.inl fun _ => rfl
  · split
    · exact Or.inl fun _ => rfl
    · exact Or.inr ⟨_, fun _ => rfl⟩

end FieldInfo

namespace Call

theorem run_frame {m : Memory} {c : Call} {i : Nat} (h : ¬(c.writes m).Contains i) :
    (c.run m).2.byte i = m.byte i := by
  cases c with
  | assign e out x => exact byte_store_of_not_contains h List.mem_cons_self rfl
  | assignConverted out x => exact byte_store_of_not_contains h List.mem_cons_self rfl
  | incrementArray data count => exact byte_incrementArray_of_not_contains h
  | describeField kind index out =>
    simp only [run, Prod.map_snd, id_eq]
    rcases FieldInfo.describe_cases kind index out with hm | ⟨info, hm⟩
    · rw [hm]
    · rw [hm]
      apply FieldInfo.byte_store_of_not_contains
      simpa [writes, hm] using h
  | incrementCopy record inc =>
    simp only [run, CounterRecord.incrementCopy, Prod.map_snd, id_eq]
    rw [CounterRecord.incrementTarget_eq_addAll]
    exact byte_addAll_of_not_contains h fun x => mem_of_mem_spread
  | incrementInPlace record inc =>
    simp only [run]
    exact CounterRecord.byte_incrementInPlace_of_not_contains h
  | mutateLinked record =>
    simp only [run, Prod.map_snd, id_eq]
    exact LinkedRecord.byte_mutate_of_not_contains h
  | _ => rfl

theorem reads_congr {m m' : Memory} {c : Call} (h : Agree (c.reads m) m m') :
    c.reads m = c.reads m' := by
  cases c with
  | sumMatrixRows e rows cols table =>
    simp only [reads, tableReads]
    rw [rowPointers_congr h (List.Subset.refl _)]
  | textLength text => exact h.stringSpan (List.Subset.refl _)
  | incrementInPlace record inc =>
    simp only [reads]
    rw [CounterRecord.targetOf_congr h (List.subset_append_left _ _)]
  | mutateLinked record => exact LinkedRecord.mutateReads_congr h
  | _ => rfl

theorem writes_congr {m m' : Memory} {c : Call} (h : Agree (c.reads m) m m') :
    c.writes m = c.writes m' := by
  cases c with
  | incrementInPlace record inc =>
    simp only [writes, CounterRecord.incrementSpans]
    rw [CounterRecord.targetOf_congr h (List.subset_append_left _ _)]
  | describeField kind index out =>
    rcases FieldInfo.describe_cases kind index out with hm | ⟨info, hm⟩ <;> simp only [writes, hm]
  | mutateLinked record => exact LinkedRecord.mutateWrites_congr h
  | _ => rfl

theorem run_value_congr {m m' : Memory} {c : Call} (h : Agree (c.reads m) m m') :
    (c.run m).1 = (c.run m').1 := by
  cases c with
  | sumArray e data count =>
    simp only [run]
    rw [h.slice (List.Subset.refl _)]
  | sumArrayPair left right count =>
    simp only [run, sumPairs, zip_slices_congr h]
  | sumMatrix e rows cols data =>
    simp only [run]
    rw [sumContiguous_congr h (List.Subset.refl _)]
  | sumMatrixRows e rows cols table =>
    simp only [run]
    rw [sumIndirect_congr h (List.Subset.refl _)]
  | textLength text =>
    simp only [run]
    rw [h.stringAt (List.Subset.refl _)]
  | blockSize block =>
    simp only [run]
    rw [Block.payloadOrZero_congr h (List.Subset.refl _)]
  | describeField kind index out =>
    simp only [run, Prod.map_fst]
    rcases FieldInfo.describe_cases kind index out with hm | ⟨info, hm⟩ <;> rw [hm, hm]
  | total record =>
    simp only [run]
    rw [NumericRecord.load_congr h (List.Subset.refl _)]
  | incrementCopy record inc => simp only [run, CounterRecord.incrementCopy, Prod.map_fst]
  | buildComposite first second message =>
    have hfirst := CounterRecord.loadOrZero_congr h (List.subset_append_left _ _)
    have hsecond := CounterRecord.loadOrZero_congr h (List.subset_append_right _ _)
    simp only [run, CompositeRecord.build, hfirst, hsecond]
  | mutateLinked record =>
    simp only [run, Prod.map_fst, LinkedRecord.mutate_value_congr h]
  | _ => rfl

theorem run_agree {m m' : Memory} {c : Call} (h : Agree (c.reads m ++ c.writes m) m m') :
    Agree (c.reads m ++ c.writes m) (c.run m).2 (c.run m').2 := by
  have hreads : Agree (c.reads m) m m' := h.mono (List.subset_append_left _ _)
  have hwrites := writes_congr hreads
  cases c with
  | assign e out x => exact h.store _ _
  | assignConverted out x => exact h.store _ _
  | incrementArray data count => exact incrementArray_congr h (List.subset_append_left _ _)
  | describeField kind index out =>
    simp only [run, Prod.map_snd, id_eq]
    rcases FieldInfo.describe_cases kind index out with hm | ⟨info, hm⟩
    · rw [hm, hm]
      exact h
    · rw [hm, hm]
      exact (((h.store _ _).store _ _).store _ _).store _ _
  | incrementCopy record inc =>
    simp only [run, CounterRecord.incrementCopy, Prod.map_snd, id_eq]
    rw [CounterRecord.incrementTarget_eq_addAll, CounterRecord.incrementTarget_eq_addAll]
    exact h.addAll fun x hx => List.mem_append_right _ (mem_of_mem_spread hx)
  | incrementInPlace record inc =>
    have hspans : CounterRecord.incrementSpans m record = CounterRecord.incrementSpans m' record :=
      hwrites
    simp only [run, CounterRecord.incrementInPlace_eq_addAll]
    rw [← hspans]
    exact h.addAll fun x hx => List.mem_append_right _ (mem_of_mem_spread hx)
  | mutateLinked record =>
    simp only [run, Prod.map_snd, id_eq]
    exact LinkedRecord.mutate_agree h
  | _ => exact h

end Call

end AbiConformance
