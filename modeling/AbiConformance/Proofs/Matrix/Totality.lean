import AbiConformance.Proofs.Call.Footprint
import AbiConformance.Proofs.Matrix.LayoutAgreement

namespace AbiConformance

open MatrixView

namespace Memory

variable {α β : Type} [Scalar α] [Accumulator β] [Widening α β]

theorem shapeOf_isEmpty_iff {rows cols : Int32} :
    (shapeOf rows cols).isEmpty = true ↔ rows.toInt ≤ 0 ∨ cols.toInt ≤ 0 := by
  simp only [Shape.isEmpty, shapeOf, Bool.or_eq_true, beq_iff_eq, elementCount_eq_zero_iff,
    Integral.toInt]

theorem tableReads_of_empty {m : Memory} {width : Nat} {s : Shape} {table : Pointer}
    (h : s.isEmpty = true) : m.tableReads width s table = [] := by
  simp [tableReads, rowPointers, rowReads, h]

theorem sumIndirect_of_empty {m : Memory} {s : Shape} {table : Pointer} (h : s.isEmpty = true) :
    (m.sumIndirect α s table : β) = Accumulator.zero := by
  rw [sumIndirect, if_pos h]

theorem sumIndirect_of_null_table {m : Memory} {s : Shape} {table : Pointer}
    (h : table.isNull = true) : (m.sumIndirect α s table : β) = Accumulator.zero := by
  cases hs : s.isEmpty with
  | true => exact sumIndirect_of_empty hs
  | false =>
    have hrows : m.rowPointers s table = [] := by simp [rowPointers, slice, h]
    have hview := RowSlices.ofRows_eq_ok (α := α) s.cols [] (by simp)
    simp only [sumIndirect, hs, Bool.false_eq_true, if_false, hrows, List.map_nil, hview,
      sumMatrix_rowSlices]
    rfl

theorem sumIndirect_of_null_row {m : Memory} {s : Shape} {table : Pointer} {r : Nat}
    (hr : r < s.rows) (h : (m.load Pointer (table.addr + r * 8)).isNull = true) :
    (m.sumIndirect α s table : β) = Accumulator.zero := by
  cases hs : s.isEmpty with
  | true => exact sumIndirect_of_empty hs
  | false =>
    cases ht : table.isNull with
    | true => exact sumIndirect_of_null_table ht
    | false =>
      apply sumIndirect_of_null
      rw [rowPointers_of_not_empty hs ht, List.any_eq_true]
      exact ⟨_, List.mem_map_of_mem (List.mem_range.mpr hr), h⟩

end Memory

theorem matrix_sums_all_or_nothing (e : ElementType) (m : Memory) (rows cols : Int32)
    (data table : Pointer) :
    let s := Memory.shapeOf rows cols
    let total : List e.Carrier → e.Wide :=
      List.foldl (fun sum x => Accumulator.add sum (Widening.widen x)) Accumulator.zero
    let rowAt := fun r => m.load Pointer (table.addr + r * 8)
    let sumData := (Call.sumMatrix e rows cols data).run m
    let sumRows := (Call.sumMatrixRows e rows cols table).run m
    (∃ n < addressSpace, s.len = .ok n ∧ (n : Int) = max rows.toInt 0 * max cols.toInt 0 ∧
      (∀ r < s.rows, r * s.cols + s.cols ≤ n) ∧
      ∀ view, RowMajor.ofArray s (m.slice e.Carrier data n).toArray = .ok view →
        ∀ mode, visitRows mode view = some (sumMatrix view : e.Wide)) ∧
    (data.isNull = true → sumData = (e.wideValue Accumulator.zero, m)) ∧
    (data.isNull = false →
      sumData = (e.wideValue (total (m.loadArray e.Carrier data.addr (s.rows * s.cols))), m)) ∧
    (rows.toInt ≤ 0 ∨ cols.toInt ≤ 0 → (Call.sumMatrixRows e rows cols table).reads m = [] ∧
      sumRows = (e.wideValue Accumulator.zero, m)) ∧
    (table.isNull = true ∨ (∃ r < s.rows, (rowAt r).isNull = true) →
      sumRows = (e.wideValue Accumulator.zero, m)) ∧
    (0 < rows.toInt → 0 < cols.toInt → table.isNull = false →
      (∀ r < s.rows, (rowAt r).isNull = false) →
      sumRows = (e.wideValue (total ((List.range s.rows).flatMap fun r =>
        m.loadArray e.Carrier (rowAt r).addr s.cols)), m)) ∧
    ∀ view, RowSlices.ofRows s.cols
        ((m.rowPointers s table).map fun row => m.slice e.Carrier row s.cols) = .ok view →
      ∀ mode, visitRows mode view = some (sumMatrix view : e.Wide) := by
  have hlen := Memory.shapeOf_len_lt rows cols
  refine ⟨⟨_, hlen, Shape.len_eq_ok.mpr ⟨rfl, hlen⟩, ?_, fun r => Shape.row_end_le,
    fun view _ mode => visitRows_rowMajor mode view⟩, ?_, ?_, ?_, ?_, ?_,
    fun view _ mode => visitRows_rowSlices mode view⟩
  · simp only [Memory.shapeOf, Nat.cast_mul, natCast_elementCount, Integral.toInt]
  · intro hd
    simp only [Call.run, Memory.sumContiguous_of_null hd]
  · intro hd
    simp only [Call.run, Memory.sumContiguous_eq_sumWide hlen hd]
    rfl
  · intro hempty
    have hs := Memory.shapeOf_isEmpty_iff.mpr hempty
    refine ⟨Memory.tableReads_of_empty hs, ?_⟩
    simp only [Call.run, Memory.sumIndirect_of_empty hs]
  · intro hnull
    have hzero : m.sumIndirect e.Carrier (Memory.shapeOf rows cols) table =
        (Accumulator.zero : e.Wide) := by
      rcases hnull with ht | ⟨r, hr, hrow⟩
      · exact Memory.sumIndirect_of_null_table ht
      · exact Memory.sumIndirect_of_null_row hr hrow
    simp only [Call.run, hzero]
  · intro hrows hcols ht hall
    have hs : (Memory.shapeOf rows cols).isEmpty = false := by
      rw [Bool.eq_false_iff, ne_eq, Memory.shapeOf_isEmpty_iff]
      omega
    simp only [Call.run, Memory.sumIndirect_of_rows hs ht hall]
    rfl

def missingRow : Memory :=
  (Memory.empty.storeArray 64 [(30000 : Int16), -2, 30000, -2]).storeArray 128
    [Pointer.ofAddr 64, .null, .ofAddr 68]

theorem matrix_sums_all_or_nothing_missingRow :
    let table := Pointer.ofAddr 128
    (Call.sumMatrixRows .int16 3 2 table).run missingRow = (.int32 0, missingRow) ∧
      (Call.sumMatrixRows .int16 1 2 table).run missingRow = (.int32 29998, missingRow) ∧
      (Call.sumMatrixRows .int16 (-3) 2 .null).run missingRow = (.int32 0, missingRow) ∧
      (Call.sumMatrix .int16 2 2 (.ofAddr 64)).run missingRow = (.int32 59996, missingRow) ∧
      (Call.sumMatrix .int16 2 2 .null).run missingRow = (.int32 0, missingRow) := by
  obtain ⟨-, -, -, -, hmissing, -⟩ :=
    matrix_sums_all_or_nothing .int16 missingRow 3 2 .null (.ofAddr 128)
  obtain ⟨-, -, -, -, -, hpresent, -⟩ :=
    matrix_sums_all_or_nothing .int16 missingRow 1 2 .null (.ofAddr 128)
  obtain ⟨-, -, -, hempty, -⟩ := matrix_sums_all_or_nothing .int16 missingRow (-3) 2 .null .null
  obtain ⟨-, -, hdata, -⟩ := matrix_sums_all_or_nothing .int16 missingRow 2 2 (.ofAddr 64) .null
  obtain ⟨-, hnull, -⟩ := matrix_sums_all_or_nothing .int16 missingRow 2 2 .null .null
  exact ⟨hmissing (Or.inr ⟨1, by decide, by decide +kernel⟩),
    hpresent (by decide) (by decide) rfl (by decide +kernel), (hempty (by decide)).2, hdata rfl,
    hnull rfl⟩

end AbiConformance
