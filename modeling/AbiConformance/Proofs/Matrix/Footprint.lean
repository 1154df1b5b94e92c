import AbiConformance.Matrix.InMemory
import AbiConformance.Proofs.Memory.Region

namespace AbiConformance

theorem RowSlices.ofRows_eq_error {α : Type} {cols : Nat} {rows : List (List α)} {row : List α}
    (hrow : row ∈ rows) (hlen : row.length ≠ cols) :
    ∃ e, RowSlices.ofRows cols rows = .error e := by
  unfold RowSlices.ofRows
  split
  · exact ⟨_, rfl⟩
  · rename_i hnone
    exact absurd (firstRagged_eq_none.mp hnone row hrow) hlen

namespace Memory

variable {α β : Type} [Scalar α] [Accumulator β] [Widening α β]

def rowReads (width cols : Nat) (rows : List Pointer) : Region :=
  if rows.any Pointer.isNull then [] else rows.map fun row => ⟨row.addr, cols * width⟩

def tableReads (m : Memory) (width : Nat) (s : Shape) (table : Pointer) : Region :=
  (if s.isEmpty then [] else table.span (s.rows * 8)) ++
    rowReads width s.cols (m.rowPointers s table)

theorem sumContiguous_congr {r : Region} {m m' : Memory} {s : Shape} {data : Pointer}
    (h : Agree r m m') (hs : data.span (s.rows * s.cols * Scalar.width α) ⊆ r) :
    (m.sumContiguous α s data : β) = m'.sumContiguous α s data := by
  unfold sumContiguous
  split
  · rfl
  · rename_i n hn
    obtain ⟨rfl, -⟩ := Shape.len_eq_ok.mp hn
    rw [h.slice hs]

theorem rowPointers_congr {r : Region} {m m' : Memory} {width : Nat} {s : Shape} {table : Pointer}
    (h : Agree r m m') (hs : m.tableReads width s table ⊆ r) :
    m.rowPointers s table = m'.rowPointers s table := by
  unfold rowPointers
  split
  · rfl
  · rename_i hempty
    apply h.slice
    intro x hx
    exact hs (List.mem_append_left _ (by rwa [if_neg hempty]))

theorem slices_congr {r : Region} {m m' : Memory} {cols : Nat} {rows : List Pointer}
    (h : Agree r m m') (hnull : rows.any Pointer.isNull = false)
    (hs : rowReads (Scalar.width α) cols rows ⊆ r) :
    (rows.map fun row => m.slice α row cols) = rows.map fun row => m'.slice α row cols := by
  apply List.map_congr_left
  intro row hrow
  have hrow' : row.isNull = false := by simpa using List.any_eq_false.mp hnull row hrow
  apply h.slice
  intro x hx
  apply hs
  simp only [rowReads, hnull, Bool.false_eq_true, if_false]
  rw [Pointer.span_of_not_null hrow'] at hx
  obtain rfl := List.mem_singleton.mp hx
  exact List.mem_map_of_mem hrow

theorem sumIndirect_of_null {m : Memory} {s : Shape} {table : Pointer}
    (hnull : (m.rowPointers s table).any Pointer.isNull = true) :
    (m.sumIndirect α s table : β) = Accumulator.zero := by
  unfold sumIndirect
  split
  · rfl
  · rename_i hempty
    obtain ⟨row, hrow, hrow'⟩ := List.any_eq_true.mp hnull
    have hslice : m.slice α row s.cols = [] := by simp [slice, hrow']
    have hcols : s.cols ≠ 0 := by
      intro h0
      simp [Shape.isEmpty, h0] at hempty
    have hmem : [] ∈ (m.rowPointers s table).map fun row => m.slice α row s.cols :=
      List.mem_map.mpr ⟨row, hrow, hslice⟩
    obtain ⟨e, he⟩ := RowSlices.ofRows_eq_error hmem hcols.symm
    rw [he]

theorem sumIndirect_congr {r : Region} {m m' : Memory} {s : Shape} {table : Pointer}
    (h : Agree r m m') (hs : m.tableReads (Scalar.width α) s table ⊆ r) :
    (m.sumIndirect α s table : β) = m'.sumIndirect α s table := by
  have hrows := rowPointers_congr h hs
  cases hnull : (m.rowPointers s table).any Pointer.isNull with
  | true => rw [sumIndirect_of_null hnull, sumIndirect_of_null (hrows ▸ hnull)]
  | false =>
    rw [sumIndirect, sumIndirect, ← hrows,
      slices_congr h hnull fun x hx => hs (List.mem_append_right _ hx)]

end Memory

end AbiConformance
