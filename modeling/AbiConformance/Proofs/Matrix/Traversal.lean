import AbiConformance.Matrix.View
import Mathlib.Data.List.Basic

namespace AbiConformance

variable {α β ν ν' : Type}

namespace MatrixView

def rowOrNil [MatrixView ν α] (m : ν) (r : Nat) : List α := (row .checked m r).getD []

def elements [MatrixView ν α] (m : ν) : List α :=
  (List.range (shape m).rows).flatMap (rowOrNil m)

end MatrixView

open MatrixView

theorem foldlM_row [Accumulator β] [Widening α β] [MatrixView ν α] {mode : Overflow} {m : ν}
    {rs : List Nat} {rowAt : Nat → List α} (h : ∀ r ∈ rs, row mode m r = some (rowAt r))
    (start : β) : rs.foldlM (fun total r => (row mode m r).map (sumWideFrom total)) start =
      some (sumWideFrom start (rs.flatMap rowAt)) := by
  induction rs generalizing start with
  | nil => rfl
  | cons r rs ih =>
    obtain ⟨hr, hrs⟩ := List.forall_mem_cons.mp h
    rw [List.foldlM_cons, hr, List.flatMap_cons, sumWideFrom_append]
    exact ih hrs _

structure Tiles [MatrixView ν α] (m : ν) (pieces : List (List α)) : Prop where
  length : pieces.length = (shape m).rows
  row : ∀ (mode : Overflow) (r : Nat) (h : r < pieces.length), row mode m r = some pieces[r]
  width : ∀ p ∈ pieces, p.length = (shape m).cols

section Tiled

variable [MatrixView ν α] [MatrixView ν' α] {m : ν} {m' : ν'} {pieces : List (List α)}

theorem Tiles.exists_row (h : Tiles m pieces) (h' : Tiles m' pieces) {r : Nat}
    (hr : r < pieces.length) :
    ∃ p, ∀ mode, MatrixView.row mode m r = some p ∧ MatrixView.row mode m' r = some p :=
  ⟨pieces[r], fun mode => ⟨h.row mode r hr, h'.row mode r hr⟩⟩

theorem Tiles.row_eq (h : Tiles m pieces) (mode : Overflow) {r : Nat} (hr : r < (shape m).rows) :
    MatrixView.row mode m r = some (rowOrNil m r) := by
  have hr' : r < pieces.length := h.length ▸ hr
  rw [rowOrNil, h.row mode r hr', h.row .checked r hr', Option.getD_some]

theorem Tiles.elements_eq (h : Tiles m pieces) : elements m = pieces.flatten := by
  have hrows : (List.range (shape m).rows).map (rowOrNil m) = pieces := by
    apply List.ext_getElem (by simp [h.length])
    intro r _ hr
    simp [rowOrNil, h.row .checked r hr]
  rw [← hrows, ← List.flatMap_def]
  rfl

section Sum

variable [Accumulator β] [Widening α β]

theorem Tiles.visitRows_eq_sumWide (h : Tiles m pieces) (mode : Overflow) :
    (visitRows mode m : Option β) = some (sumWide pieces.flatten) := by
  rw [visitRows, foldlM_row fun r hr => h.row_eq mode (List.mem_range.mp hr), ← h.elements_eq]
  rfl

theorem Tiles.sumMatrix_eq (h : Tiles m pieces) : (sumMatrix m : β) = sumWide pieces.flatten := by
  rw [sumMatrix, h.visitRows_eq_sumWide, Option.getD_some]

theorem Tiles.visitRows_eq (h : Tiles m pieces) (mode : Overflow) :
    (visitRows mode m : Option β) = some (sumMatrix m) := by
  rw [h.visitRows_eq_sumWide, h.sumMatrix_eq]

end Sum

end Tiled

theorem take_mul_eq_flatMap (xs : List α) (n cols : Nat) :
    xs.take (n * cols) = (List.range n).flatMap fun r => (xs.drop (r * cols)).take cols := by
  induction n with
  | zero => simp
  | succ n ih => simp [Nat.succ_mul, List.take_add, List.range_succ, ih]

theorem Shape.row_end_le {s : Shape} {r : Nat} (h : r < s.rows) :
    r * s.cols + s.cols ≤ s.rows * s.cols := by
  rw [← Nat.succ_mul]
  exact Nat.mul_le_mul_right _ h

def Shape.cut (s : Shape) (data : Array α) : List (List α) :=
  (List.range s.rows).map fun r => (data.extract (r * s.cols) (r * s.cols + s.cols)).toList

namespace RowMajor

variable (m : RowMajor α)

theorem row_eq_extract (mode : Overflow) {r : Nat} (h : r < m.shape.rows) :
    m.row mode r = some
      (m.data.extract (r * m.shape.cols) (r * m.shape.cols + m.shape.cols)).toList := by
  have hend := Shape.row_end_le h
  have hfits := m.fits
  rw [← m.size_data] at hend
  have hstart : mode.fit (r * m.shape.cols) = some (r * m.shape.cols) :=
    Overflow.fit_of_lt (by omega) mode
  have hstop : mode.fit (r * m.shape.cols + m.shape.cols) =
      some (r * m.shape.cols + m.shape.cols) := Overflow.fit_of_lt (by omega) mode
  simp only [row, hstart, hstop, Option.bind_eq_bind, Option.bind_some, Nat.le_add_right, hend,
    and_self, if_true]

theorem length_extract {r : Nat} (h : r < m.shape.rows) :
    (m.data.extract (r * m.shape.cols) (r * m.shape.cols + m.shape.cols)).toList.length =
      m.shape.cols := by
  have hend := Shape.row_end_le h
  rw [← m.size_data] at hend
  rw [Array.length_toList, Array.size_extract]
  omega

theorem tiles : Tiles m (m.shape.cut m.data) where
  length := by simp [Shape.cut, MatrixView.shape]
  row mode r h := by
    have hr : r < m.shape.rows := by simpa [Shape.cut] using h
    simp only [Shape.cut, List.getElem_map, List.getElem_range]
    exact m.row_eq_extract mode hr
  width p hp := by
    obtain ⟨r, hr, rfl⟩ := List.mem_map.mp hp
    exact m.length_extract (List.mem_range.mp hr)

theorem flatten_cut : (m.shape.cut m.data).flatten = m.data.toList := by
  have hrows : m.shape.cut m.data = (List.range m.shape.rows).map fun r =>
      (m.data.toList.drop (r * m.shape.cols)).take m.shape.cols := by
    apply List.map_congr_left
    intro r _
    rw [Array.toList_extract, List.extract_eq_take_drop, Nat.add_sub_cancel_left]
  rw [hrows, ← List.flatMap_def, ← take_mul_eq_flatMap, ← m.size_data]
  exact List.take_length

end RowMajor

theorem RowSlices.tiles (m : RowSlices α) : Tiles m m.rows.toList where
  length := Array.length_toList
  row mode r h := by
    simp only [Array.length_toList] at h
    simp [MatrixView.row, RowSlices.row, h]
  width p hp := m.length_row p (by simpa using hp)

theorem elements_rowMajor (m : RowMajor α) : elements m = m.data.toList :=
  m.tiles.elements_eq.trans m.flatten_cut

theorem elements_rowSlices (m : RowSlices α) : elements m = m.rows.toList.flatten :=
  m.tiles.elements_eq

section Sums

variable [Accumulator β] [Widening α β]

theorem sumMatrix_rowMajor (m : RowMajor α) : (sumMatrix m : β) = sumWide m.data.toList := by
  rw [m.tiles.sumMatrix_eq, m.flatten_cut]

theorem sumMatrix_rowSlices (m : RowSlices α) :
    (sumMatrix m : β) = sumWide m.rows.toList.flatten :=
  m.tiles.sumMatrix_eq

theorem visitRows_rowMajor (mode : Overflow) (m : RowMajor α) :
    (visitRows mode m : Option β) = some (sumMatrix m) :=
  m.tiles.visitRows_eq mode

theorem visitRows_rowSlices (mode : Overflow) (m : RowSlices α) :
    (visitRows mode m : Option β) = some (sumMatrix m) :=
  m.tiles.visitRows_eq mode

end Sums

theorem RowMajor.ofArray_eq_ok {s : Shape} (data : Array α) (hs : s.rows * s.cols < addressSpace)
    (hd : data.size = s.rows * s.cols) :
    RowMajor.ofArray s data = .ok ⟨s, data, hd, hd ▸ hs⟩ := by
  unfold RowMajor.ofArray
  split
  · rename_i e he
    rw [Shape.len_eq_ok.mpr ⟨rfl, hs⟩] at he
    cases he
  · rename_i n hn
    exact dif_pos (hd.trans (Shape.len_eq_ok.mp hn).1)

theorem RowMajor.of_ofArray {s : Shape} {data : Array α} {view : RowMajor α}
    (h : RowMajor.ofArray s data = .ok view) :
    s.rows * s.cols < addressSpace ∧ view.shape = s ∧ view.data = data := by
  unfold RowMajor.ofArray at h
  split at h
  · cases h
  · rename_i n hn
    obtain ⟨rfl, hlt⟩ := Shape.len_eq_ok.mp hn
    split at h
    · cases h
      exact ⟨hlt, rfl, rfl⟩
    · cases h

theorem RowSlices.ofRows_eq_ok (cols : Nat) (rows : List (List α))
    (h : ∀ r ∈ rows, r.length = cols) :
    RowSlices.ofRows cols rows = .ok ⟨cols, rows.toArray, by simpa using h⟩ := by
  have hn := RowSlices.firstRagged_eq_none (i := 0).mpr h
  unfold RowSlices.ofRows
  split
  · simp_all
  · rfl

theorem RowSlices.of_ofRows {cols : Nat} {rows : List (List α)} {view : RowSlices α}
    (h : RowSlices.ofRows cols rows = .ok view) : view.cols = cols ∧ view.rows = rows.toArray := by
  unfold RowSlices.ofRows at h
  split at h
  · cases h
  · cases h
    exact ⟨rfl, rfl⟩

end AbiConformance
