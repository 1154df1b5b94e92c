import AbiConformance.Call.Basic
import AbiConformance.Proofs.Matrix.Traversal
import AbiConformance.Proofs.Memory.Array

namespace AbiConformance

namespace Memory

variable {α β : Type} [Scalar α]

def TableOf (α : Type) [Scalar α] (m : Memory) (s : Shape) (data table : Pointer) : Prop :=
  ∀ r < s.rows, table.isNull = false ∧
    (m.load Pointer (table.addr + r * 8)).isNull = false ∧
    m.read (m.load Pointer (table.addr + r * 8)).addr (s.cols * Scalar.width α) =
      m.read (data.addr + r * s.cols * Scalar.width α) (s.cols * Scalar.width α)

theorem shapeOf_len_lt (rows cols : Int32) :
    (shapeOf rows cols).rows * (shapeOf rows cols).cols < addressSpace := by
  have hr := elementCount_lt rows
  have hc := elementCount_lt cols
  have hm := Nat.mul_lt_mul'' hr hc
  simp only [shapeOf, addressSpace]
  omega

section Contiguous

variable [Accumulator β] [Widening α β]

theorem sumContiguous_eq_sumWide {m : Memory} {s : Shape} {data : Pointer}
    (hs : s.rows * s.cols < addressSpace) (hd : data.isNull = false) :
    (m.sumContiguous α s data : β) = sumWide (m.loadArray α data.addr (s.rows * s.cols)) := by
  have hlen : s.len = .ok (s.rows * s.cols) := Shape.len_eq_ok.mpr ⟨rfl, hs⟩
  have hview := RowMajor.ofArray_eq_ok (m.loadArray α data.addr (s.rows * s.cols)).toArray hs
    (by simp)
  simp only [sumContiguous, hlen, slice_of_not_null hd, hview, sumMatrix_rowMajor]

theorem sumContiguous_of_null {m : Memory} {s : Shape} {data : Pointer} (hd : data.isNull = true) :
    (m.sumContiguous α s data : β) = Accumulator.zero := by
  have hslice : ∀ n, m.slice α data n = [] := fun _ => if_pos hd
  simp only [sumContiguous, hslice]
  split
  · rfl
  · split
    · rfl
    · next view hview =>
      rw [sumMatrix_rowMajor, (RowMajor.of_ofArray hview).2.2]
      rfl

theorem sumContiguous_eq_sumWide_slice {m : Memory} {s : Shape} {data : Pointer}
    (hs : s.rows * s.cols < addressSpace) :
    (m.sumContiguous α s data : β) = sumWide (m.slice α data (s.rows * s.cols)) := by
  cases hd : data.isNull with
  | false => rw [sumContiguous_eq_sumWide hs hd, slice_of_not_null hd]
  | true =>
    have hslice : m.slice α data (s.rows * s.cols) = [] := if_pos hd
    rw [sumContiguous_of_null hd, hslice]
    rfl

end Contiguous

theorem rowPointers_of_not_empty {m : Memory} {s : Shape} {table : Pointer}
    (hs : s.isEmpty = false) (ht : table.isNull = false) :
    m.rowPointers s table =
      (List.range s.rows).map fun r => m.load Pointer (table.addr + r * 8) := by
  simp only [rowPointers, hs, Bool.false_eq_true, if_false, slice_of_not_null ht]
  rfl

theorem sumIndirect_of_rows [Accumulator β] [Widening α β] {m : Memory} {s : Shape}
    {table : Pointer} (hs : s.isEmpty = false) (ht : table.isNull = false)
    (hrows : ∀ r < s.rows, (m.load Pointer (table.addr + r * 8)).isNull = false) :
    (m.sumIndirect α s table : β) = sumWide ((List.range s.rows).flatMap fun r =>
      m.loadArray α (m.load Pointer (table.addr + r * 8)).addr s.cols) := by
  have hslices : ((m.rowPointers s table).map fun row => m.slice α row s.cols) =
      (List.range s.rows).map fun r =>
        m.loadArray α (m.load Pointer (table.addr + r * 8)).addr s.cols := by
    rw [rowPointers_of_not_empty hs ht, List.map_map]
    apply List.map_congr_left
    intro r hr
    simp only [Function.comp_apply, slice_of_not_null (hrows r (List.mem_range.mp hr))]
  have hview := RowSlices.ofRows_eq_ok s.cols ((List.range s.rows).map fun r =>
    m.loadArray α (m.load Pointer (table.addr + r * 8)).addr s.cols) (by simp)
  simp only [sumIndirect, hs, Bool.false_eq_true, if_false, hslices, hview, sumMatrix_rowSlices]
  rw [List.flatMap_def]

theorem sumIndirect_eq_sumWide [Accumulator β] [Widening α β] {m : Memory} {s : Shape}
    {data table : Pointer} (h : m.TableOf α s data table) :
    (m.sumIndirect α s table : β) = sumWide (m.loadArray α data.addr (s.rows * s.cols)) := by
  cases hs : s.isEmpty with
  | true => simp [sumIndirect, hs, Shape.isEmpty_iff.mp hs, loadArray, sumWide]
  | false =>
    have hrows : 0 < s.rows := by
      rcases Nat.eq_zero_or_pos s.rows with h0 | h0
      · simp [Shape.isEmpty, h0] at hs
      · exact h0
    have hall : ((List.range s.rows).flatMap fun r =>
        m.loadArray α (m.load Pointer (table.addr + r * 8)).addr s.cols) =
          m.loadArray α data.addr (s.rows * s.cols) := by
      rw [loadArray_mul]
      apply List.flatMap_congr
      intro r hr
      obtain ⟨-, -, hread⟩ := h r (List.mem_range.mp hr)
      rw [loadArray_congr hread]
    rw [sumIndirect_of_rows hs (h 0 hrows).1 fun r hr => (h r hr).2.1, hall]

end Memory

abbrev Accumulator.withAdd {β : Type} [Accumulator β] (plus : β → β → β) : Accumulator β :=
  ⟨Accumulator.zero, plus⟩

theorem contiguous_and_table_sums_agree (e : ElementType) (m : Memory) (rows cols : Int32)
    (data table : Pointer) (hdata : data.isNull = false)
    (htable : m.TableOf e.Carrier (Memory.shapeOf rows cols) data table) :
    let s := Memory.shapeOf rows cols
    let fold := fun plus : e.Wide → e.Wide → e.Wide =>
      (m.loadArray e.Carrier data.addr (s.rows * s.cols)).foldl
        (fun total x => plus total (Widening.widen x)) Accumulator.zero
    (Call.sumMatrix e rows cols data).run m = (e.wideValue (fold Accumulator.add), m) ∧
      (Call.sumMatrixRows e rows cols table).run m = (e.wideValue (fold Accumulator.add), m) ∧
      ∀ plus : e.Wide → e.Wide → e.Wide,
        let _ := Accumulator.withAdd plus
        m.sumContiguous e.Carrier s data = fold plus ∧
          m.sumIndirect e.Carrier s table = fold plus := by
  have hlen := Memory.shapeOf_len_lt rows cols
  refine ⟨?_, ?_, fun plus => ⟨?_, ?_⟩⟩
  · simp only [Call.run, Memory.sumContiguous_eq_sumWide hlen hdata]
    rfl
  · simp only [Call.run, Memory.sumIndirect_eq_sumWide htable]
    rfl
  · exact @Memory.sumContiguous_eq_sumWide _ _ _ (Accumulator.withAdd plus) _ m _ _ hlen hdata
  · exact @Memory.sumIndirect_eq_sumWide _ _ _ (Accumulator.withAdd plus) _ m _ _ _ htable

def sharedRows : Memory :=
  (Memory.empty.storeArray 64 [(30000 : Int16), -2, 30000, -2]).storeArray 128
    [Pointer.ofAddr 68, Pointer.ofAddr 64]

theorem sharedRows_tableOf :
    sharedRows.TableOf Int16 (Memory.shapeOf 2 2) (.ofAddr 64) (.ofAddr 128) := by
  unfold Memory.TableOf
  decide

theorem contiguous_and_table_sums_agree_sharedRows :
    Pointer.isNull (.ofAddr 64) = false ∧
      sharedRows.TableOf Int16 (Memory.shapeOf 2 2) (.ofAddr 64) (.ofAddr 128) ∧
      (Call.sumMatrix .int16 2 2 (.ofAddr 64)).run sharedRows = (.int32 59996, sharedRows) ∧
      (Call.sumMatrixRows .int16 2 2 (.ofAddr 128)).run sharedRows =
        (.int32 59996, sharedRows) := by
  have h := contiguous_and_table_sums_agree .int16 sharedRows 2 2 (.ofAddr 64) (.ofAddr 128) rfl
    sharedRows_tableOf
  exact ⟨rfl, sharedRows_tableOf, h.1, h.2.1⟩

end AbiConformance
