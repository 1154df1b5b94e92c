import AbiConformance.Proofs.Matrix.Totality

namespace AbiConformance

open MatrixView

namespace RowMajor

variable {α : Type} (m : RowMajor α) {r : Nat}

theorem le_size_of_le (hr : m.shape.rows ≤ r) : m.data.size ≤ r * m.shape.cols := by
  rw [m.size_data]
  exact Nat.mul_le_mul_right _ hr

theorem row_eq_none {mode : Overflow} (hcols : 0 < m.shape.cols) (hr : m.shape.rows ≤ r)
    (h : mode = .checked ∨ r * m.shape.cols + m.shape.cols < addressSpace) :
    m.row mode r = none := by
  have hsize := m.le_size_of_le hr
  by_cases hend : r * m.shape.cols + m.shape.cols < addressSpace
  · have hstart : mode.fit (r * m.shape.cols) = some (r * m.shape.cols) :=
      Overflow.fit_of_lt (by omega) mode
    have hstop := Overflow.fit_of_lt hend mode
    have hpast : ¬(r * m.shape.cols ≤ r * m.shape.cols + m.shape.cols ∧
        r * m.shape.cols + m.shape.cols ≤ m.data.size) := by omega
    simp only [row, hstart, hstop, Option.bind_eq_bind, Option.bind_some, hpast, if_false]
  · obtain rfl := h.resolve_right hend
    -- Either the product or the sum is the result that does not fit a word.
    by_cases hstart : r * m.shape.cols < addressSpace
    · simp only [row, Overflow.fit, hstart, hend, if_true, if_false, Option.bind_eq_bind,
        Option.bind_some, Option.bind_none]
    · simp only [row, Overflow.fit, hstart, if_false, Option.bind_eq_bind, Option.bind_none]

theorem row_wrapping (hcols : m.shape.cols < addressSpace) :
    m.row .wrapping r =
      if r * m.shape.cols % addressSpace + m.shape.cols ≤ m.data.size then
        some (m.data.extract (r * m.shape.cols % addressSpace)
          (r * m.shape.cols % addressSpace + m.shape.cols)).toList
      else none := by
  have hfits := m.fits
  have hlow : r * m.shape.cols % addressSpace < addressSpace := Nat.mod_lt _ (by decide)
  generalize hstart : r * m.shape.cols % addressSpace = start at hlow ⊢
  simp only [row, Overflow.fit, hstart, Option.bind_eq_bind, Option.bind_some]
  rcases Nat.lt_or_ge (start + m.shape.cols) addressSpace with hstop | hstop
  · simp only [Nat.mod_eq_of_lt hstop, Nat.le_add_right, true_and]
  · -- A range whose end wraps stops before it starts.
    have hend : (start + m.shape.cols) % addressSpace = start + m.shape.cols - addressSpace := by
      rw [Nat.mod_eq_sub_mod hstop]
      exact Nat.mod_eq_of_lt (by omega)
    rw [hend, if_neg (by omega), if_neg (by omega)]

theorem row_of_no_columns (mode : Overflow) (hcols : m.shape.cols = 0) :
    m.row mode r = some [] := by
  have hstart := Overflow.fit_of_lt (n := 0) (by decide) mode
  simp only [row, hcols, Nat.mul_zero, Nat.add_zero, hstart, Option.bind_eq_bind, Option.bind_some,
    Nat.zero_le, and_self, if_true, Array.extract_zero, Array.toList_empty]

end RowMajor

section Words

variable {x y : UInt64}

theorem toNat_mul_of_fits (h : x.toNat * y.toNat < addressSpace) :
    (x * y).toNat = x.toNat * y.toNat := by
  rw [UInt64.toNat_mul]
  exact Nat.mod_eq_of_lt h

theorem toNat_add_of_fits (h : x.toNat + y.toNat < addressSpace) :
    (x + y).toNat = x.toNat + y.toNat := by
  rw [UInt64.toNat_add]
  exact Nat.mod_eq_of_lt h

end Words

abbrev Accumulator.log (α : Type) : Accumulator (List α) := ⟨[], (· ++ ·)⟩

abbrev Widening.log (α : Type) : Widening α (List α) := ⟨fun x => [x]⟩

section Visited

variable {α ν : Type}

def visited [MatrixView ν α] (mode : Overflow) (m : ν) : Option (List α) :=
  @visitRows α (List α) ν (Accumulator.log α) (Widening.log α) _ mode m

theorem sumWideFrom_log (start xs : List α) :
    @sumWideFrom α (List α) (Accumulator.log α) (Widening.log α) start xs = start ++ xs := by
  induction xs generalizing start with
  | nil => exact (List.append_nil start).symm
  | cons x xs ih =>
    rw [List.append_cons]
    exact ih (start ++ [x])

theorem Tiles.visited_eq [MatrixView ν α] {m : ν} {pieces : List (List α)} (h : Tiles m pieces)
    (mode : Overflow) : visited mode m = some pieces.flatten := by
  rw [visited, @Tiles.visitRows_eq_sumWide α (List α) ν _ m pieces (.log α) (.log α) h mode]
  exact congrArg some (sumWideFrom_log [] _)

end Visited

theorem RowSlices.tiles_of_ofRows {α : Type} {cols : Nat} {rows : List (List α)}
    {view : RowSlices α} (h : RowSlices.ofRows cols rows = .ok view) : Tiles view rows := by
  have htiles := view.tiles
  rwa [(RowSlices.of_ofRows h).2] at htiles

theorem accepted_views_are_tiled {α β : Type} [Accumulator β] [Widening α β] :
    (∀ (s : Shape) (data : Array α) (view : RowMajor α), RowMajor.ofArray s data = .ok view →
      shape view = s ∧ data.size < addressSpace ∧
      (∀ q cols : UInt64, q.toNat < s.rows → cols.toNat = s.cols →
        q.toNat * s.cols ≤ data.size ∧ (q * cols).toNat = q.toNat * s.cols ∧
        q.toNat * s.cols + s.cols ≤ data.size ∧
        (q * cols + cols).toNat = q.toNat * s.cols + s.cols) ∧
      Tiles view (s.cut data) ∧ (s.cut data).flatten = data.toList ∧
      ∀ mode, visitRows mode view = some (sumMatrix view : β) ∧
        visited mode view = some data.toList) ∧
    ∀ (cols : Nat) (rows : List (List α)) (view : RowSlices α),
      RowSlices.ofRows cols rows = .ok view →
      shape view = ⟨rows.length, cols⟩ ∧ Tiles view rows ∧
      ∀ mode, visitRows mode view = some (sumMatrix view : β) ∧
        visited mode view = some rows.flatten := by
  constructor
  · intro s data view h
    obtain ⟨hlt, rfl, rfl⟩ := RowMajor.of_ofArray h
    rw [← view.size_data] at hlt
    have hvisited := fun mode => view.tiles.visited_eq mode
    rw [view.flatten_cut] at hvisited
    refine ⟨rfl, hlt, ?_, view.tiles, view.flatten_cut, fun mode =>
      ⟨visitRows_rowMajor mode view, hvisited mode⟩⟩
    intro q cols hq hcols
    have hend := Shape.row_end_le hq
    rw [← view.size_data] at hend
    rw [← hcols] at hend ⊢
    have hmul : (q * cols).toNat = q.toNat * cols.toNat := toNat_mul_of_fits (by omega)
    have hadd : (q * cols + cols).toNat = (q * cols).toNat + cols.toNat :=
      toNat_add_of_fits (by omega)
    exact ⟨by omega, hmul, hend, by rw [hadd, hmul]⟩
  · intro cols rows view h
    have htiles := RowSlices.tiles_of_ofRows h
    obtain ⟨rfl, hrows⟩ := RowSlices.of_ofRows h
    refine ⟨?_, htiles, fun mode => ⟨visitRows_rowSlices mode view, htiles.visited_eq mode⟩⟩
    simp only [MatrixView.shape, RowSlices.shape, hrows, List.size_toArray]

def grid : RowMajor Int16 := ⟨⟨2, 3⟩, #[30000, 30000, -5, 7, 8, 9], rfl, by decide⟩

def tall : RowMajor Int16 := ⟨⟨2 ^ 64 - 1, 0⟩, #[], rfl, by decide⟩

def halves : RowSlices Int16 := ⟨3, #[[30000, 30000, -5], [7, 8, 9]], by decide⟩

theorem ofArray_grid : RowMajor.ofArray ⟨2, 3⟩ grid.data = .ok grid := rfl

theorem ofArray_tall : RowMajor.ofArray ⟨2 ^ 64 - 1, 0⟩ tall.data = .ok tall := rfl

theorem ofRows_halves : RowSlices.ofRows 3 [[30000, 30000, -5], [7, 8, 9]] = .ok halves := rfl

theorem accepted_views_are_tiled_grid :
    RowMajor.ofArray ⟨2, 3⟩ grid.data = .ok grid ∧
      RowMajor.ofArray ⟨2 ^ 64 - 1, 0⟩ tall.data = .ok tall ∧
      RowSlices.ofRows 3 [[30000, 30000, -5], [7, 8, 9]] = .ok halves ∧
      (1 * 3 + 3 : UInt64).toNat = 6 ∧ Tiles grid [[30000, 30000, -5], [7, 8, 9]] ∧
      visited .wrapping grid = some [30000, 30000, -5, 7, 8, 9] ∧
      (visitRows .checked tall : Option Int32) = some 0 ∧ visited .checked tall = some [] ∧
      Tiles halves [[30000, 30000, -5], [7, 8, 9]] ∧
      (visitRows .checked halves : Option Int32) = some 60019 := by
  obtain ⟨hflat, hrows⟩ := accepted_views_are_tiled (α := Int16) (β := Int32)
  obtain ⟨-, -, hbounds, htiles, -, hgridSums⟩ := hflat _ _ _ ofArray_grid
  obtain ⟨-, -, -, -, -, htallSums⟩ := hflat _ _ _ ofArray_tall
  obtain ⟨-, hhalf, hhalfSums⟩ := hrows _ _ _ ofRows_halves
  obtain ⟨-, -, -, hend⟩ := hbounds 1 3 (by decide) rfl
  have htotal : (sumMatrix halves : Int32) = 60019 := by
    rw [sumMatrix_rowSlices]
    rfl
  have hzero : (sumMatrix tall : Int32) = 0 := by
    rw [sumMatrix_rowMajor]
    rfl
  exact ⟨ofArray_grid, ofArray_tall, ofRows_halves, hend, htiles, (hgridSums .wrapping).2,
    hzero ▸ (htallSums .checked).1, (htallSums .checked).2, hhalf,
    htotal ▸ (hhalfSums .checked).1⟩

theorem rows_outside_by_overflow {α : Type} :
    (∀ (s : Shape) (data : Array α) (view : RowMajor α), RowMajor.ofArray s data = .ok view →
      (0 < s.cols → ∀ r,
        (r < s.rows → r * s.cols + s.cols ≤ data.size ∧ ∀ mode,
          row mode view r = some (data.extract (r * s.cols) (r * s.cols + s.cols)).toList) ∧
        (s.rows ≤ r → row .checked view r = none) ∧
        (s.rows ≤ r → r * s.cols + s.cols < addressSpace → row .wrapping view r = none) ∧
        (s.cols < addressSpace →
          let start := r * s.cols % addressSpace
          row .wrapping view r =
            if start + s.cols ≤ data.size then some (data.extract start (start + s.cols)).toList
            else none)) ∧
      (s.cols = 0 → ∀ mode r, row mode view r = some [])) ∧
    ∀ (cols : Nat) (rows : List (List α)) (view : RowSlices α),
      RowSlices.ofRows cols rows = .ok view → ∀ mode r, row mode view r = rows[r]? ∧
        (r < rows.length → (row mode view r).isSome = true) ∧
        (rows.length ≤ r → row mode view r = none) := by
  constructor
  · intro s data view h
    obtain ⟨-, rfl, rfl⟩ := RowMajor.of_ofArray h
    refine ⟨fun hcols r => ⟨fun hr => ⟨?_, fun mode => view.row_eq_extract mode hr⟩,
      fun hr => view.row_eq_none hcols hr (Or.inl rfl),
      fun hr hend => view.row_eq_none hcols hr (Or.inr hend), view.row_wrapping⟩,
      fun hcols mode r => view.row_of_no_columns mode hcols⟩
    rw [view.size_data]
    exact Shape.row_end_le hr
  · intro cols rows view h mode r
    obtain ⟨-, hrows⟩ := RowSlices.of_ofRows h
    have hrow : row mode view r = rows[r]? := by simp [MatrixView.row, RowSlices.row, hrows]
    rw [hrow]
    exact ⟨rfl, fun hr => by simp [hr], fun hr => List.getElem?_eq_none hr⟩

theorem rows_outside_by_overflow_grid :
    RowMajor.ofArray ⟨2, 3⟩ grid.data = .ok grid ∧
      RowMajor.ofArray ⟨2 ^ 64 - 1, 0⟩ tall.data = .ok tall ∧
      RowSlices.ofRows 3 [[30000, 30000, -5], [7, 8, 9]] = .ok halves ∧
      row .wrapping grid 1 = some [7, 8, 9] ∧ row .checked grid 2 = none ∧
      row .wrapping grid 2 = none ∧ row .checked grid 6148914691236517206 = none ∧
      row .wrapping grid 6148914691236517206 = some [-5, 7, 8] ∧
      row .wrapping grid 6148914691236517205 = none ∧ row .checked tall (2 ^ 64 - 1) = some [] ∧
      row .checked halves 1 = some [7, 8, 9] ∧ row .wrapping halves 2 = none := by
  obtain ⟨hflat, hrows⟩ := rows_outside_by_overflow (α := Int16)
  have hrow := (hflat _ _ _ ofArray_grid).1 (by decide)
  have hhalf := hrows _ _ _ ofRows_halves
  exact ⟨ofArray_grid, ofArray_tall, ofRows_halves, ((hrow 1).1 (by decide)).2 .wrapping,
    (hrow 2).2.1 (by decide), (hrow 2).2.2.1 (by decide) (by decide),
    (hrow 6148914691236517206).2.1 (by decide), (hrow 6148914691236517206).2.2.2 (by decide),
    (hrow 6148914691236517205).2.2.2 (by decide),
    (hflat _ _ _ ofArray_tall).2 rfl .checked (2 ^ 64 - 1), (hhalf .checked 1).1,
    (hhalf .wrapping 2).2.2 (by decide)⟩

theorem wrapped_row_is_returned :
    RowMajor.ofArray ⟨2, 3⟩ grid.data = .ok grid ∧
      row .wrapping grid 6148914691236517206 = some [-5, 7, 8] ∧
      ¬∀ mode r, (shape grid).rows ≤ r → row mode grid r = none := by
  have hrow : row .wrapping grid 6148914691236517206 = some [-5, 7, 8] := by decide
  refine ⟨ofArray_grid, hrow, ?_⟩
  intro hnone
  rw [hnone .wrapping 6148914691236517206 (by decide)] at hrow
  cases hrow

end AbiConformance
