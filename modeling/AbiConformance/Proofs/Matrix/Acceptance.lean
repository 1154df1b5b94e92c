import AbiConformance.Matrix.Owned
import AbiConformance.Proofs.Matrix.Rows

namespace AbiConformance

open MatrixView

variable {α : Type}

namespace RowMajor

variable {s : Shape} {data : Array α}

theorem ofArray_of_overflow (h : addressSpace ≤ s.rows * s.cols) :
    ofArray s data = .error (.shapeOverflow s) := by
  unfold ofArray
  split
  · rename_i e he
    rw [(Shape.len_eq_error.mp he).2]
  · rename_i n hn
    have hlen := Shape.len_eq_ok.mp hn
    omega

theorem ofArray_of_mismatch (hs : s.rows * s.cols < addressSpace)
    (hd : data.size ≠ s.rows * s.cols) : ofArray s data = .error (.shapeMismatch s data.size) := by
  unfold ofArray
  split
  · rename_i e he
    have hlen := Shape.len_eq_error.mp he
    omega
  · rename_i n hn
    have hlen := Shape.len_eq_ok.mp hn
    rw [dif_neg (by omega)]

theorem exists_ofArray_eq_ok_iff : (∃ view, ofArray s data = .ok view) ↔
    s.rows * s.cols < addressSpace ∧ s.rows * s.cols = data.size := by
  constructor
  · rintro ⟨view, h⟩
    obtain ⟨hs, rfl, rfl⟩ := of_ofArray h
    exact ⟨hs, view.size_data.symm⟩
  · rintro ⟨hs, hd⟩
    exact ⟨_, ofArray_eq_ok data hs hd.symm⟩

theorem ofArray_eq_error_iff {e : LayoutError} : ofArray s data = .error e ↔
    addressSpace ≤ s.rows * s.cols ∧ e = .shapeOverflow s ∨
    s.rows * s.cols < addressSpace ∧ s.rows * s.cols ≠ data.size ∧
      e = .shapeMismatch s data.size := by
  rcases Nat.lt_or_ge (s.rows * s.cols) addressSpace with hs | hs
  · by_cases hd : data.size = s.rows * s.cols
    · simp [ofArray_eq_ok data hs hd, hd, Nat.not_le.mpr hs]
    · simp [ofArray_of_mismatch hs hd, hs, Nat.not_le.mpr hs, Ne.symm hd, eq_comm]
  · simp [ofArray_of_overflow hs, hs, Nat.not_lt.mpr hs, eq_comm]

end RowMajor

namespace RowSlices

variable {cols : Nat} {rows : List (List α)}

theorem firstRagged_eq_some_iff {i : Nat} {e : LayoutError} : firstRagged cols i rows = some e ↔
    ∃ k, ∃ h : k < rows.length, rows[k].length ≠ cols ∧
      (∀ j (hj : j < k), rows[j].length = cols) ∧ e = .raggedRow (i + k) cols rows[k].length := by
  induction rows generalizing i with
  | nil => simp [firstRagged]
  | cons p rows ih =>
    rw [firstRagged]
    split
    · rename_i hp
      rw [ih]
      constructor
      · rintro ⟨k, hk, hne, hmin, rfl⟩
        refine ⟨k + 1, Nat.succ_lt_succ hk, hne, ?_, by rw [Nat.add_assoc, Nat.add_comm 1 k]; rfl⟩
        intro j hj
        cases j with
        | zero => exact hp
        | succ j => exact hmin j (Nat.lt_of_succ_lt_succ hj)
      · rintro ⟨k, hk, hne, hmin, rfl⟩
        cases k with
        | zero => exact absurd hp hne
        | succ k =>
          refine ⟨k, Nat.lt_of_succ_lt_succ hk, hne, ?_, ?_⟩
          · intro j hj
            exact hmin (j + 1) (Nat.succ_lt_succ hj)
          · rw [Nat.add_assoc, Nat.add_comm 1 k]
            rfl
    · rename_i hp
      constructor
      · rintro ⟨⟩
        exact ⟨0, Nat.zero_lt_succ _, hp, fun j hj => absurd hj (Nat.not_lt_zero j), rfl⟩
      · rintro ⟨k, hk, hne, hmin, rfl⟩
        cases k with
        | zero => rfl
        | succ k => exact absurd (hmin 0 (Nat.zero_lt_succ k)) hp

theorem exists_ofRows_eq_ok_iff :
    (∃ view, ofRows cols rows = .ok view) ↔ ∀ p ∈ rows, p.length = cols := by
  constructor
  · rintro ⟨view, h⟩
    obtain ⟨rfl, hrows⟩ := of_ofRows h
    intro p hp
    exact view.length_row p (by simpa [hrows] using hp)
  · intro h
    exact ⟨_, ofRows_eq_ok cols rows h⟩

theorem ofRows_eq_error_iff {e : LayoutError} : ofRows cols rows = .error e ↔
    ∃ k, ∃ h : k < rows.length, rows[k].length ≠ cols ∧
      (∀ j (hj : j < k), rows[j].length = cols) ∧ e = .raggedRow k cols rows[k].length := by
  have hfirst := @firstRagged_eq_some_iff α cols rows 0 e
  simp only [Nat.zero_add] at hfirst
  rw [← hfirst]
  unfold ofRows
  split
  · rename_i e' he'
    simp [he']
  · rename_i hnone
    simp [hnone]

end RowSlices

theorem length_flatten_of_width {rows : List (List α)} {cols : Nat}
    (h : ∀ p ∈ rows, p.length = cols) : rows.flatten.length = rows.length * cols := by
  induction rows with
  | nil => simp
  | cons p rows ih =>
    obtain ⟨hp, hrows⟩ := List.forall_mem_cons.mp h
    rw [List.flatten_cons, List.length_append, ih hrows, hp, List.length_cons, Nat.succ_mul,
      Nat.add_comm]

theorem eq_of_flatten_eq {ps qs : List (List α)} {cols : Nat}
    (hlen : ps.length = qs.length) (hps : ∀ p ∈ ps, p.length = cols)
    (hqs : ∀ q ∈ qs, q.length = cols) (h : ps.flatten = qs.flatten) : ps = qs := by
  have hwidths : ∀ {rs : List (List α)}, (∀ r ∈ rs, r.length = cols) →
      rs.map List.length = List.replicate rs.length cols := by
    intro rs hrs
    rw [List.map_congr_left hrs, List.map_const']
  rw [List.eq_iff_flatten_eq]
  exact ⟨h, by rw [hwidths hps, hwidths hqs, hlen]⟩

theorem RowMajor.exists_of_rows {cols : Nat} {rows : List (List α)}
    (hwidth : ∀ p ∈ rows, p.length = cols) (hfits : rows.flatten.length < addressSpace) :
    ∃ flat, RowMajor.ofArray ⟨rows.length, cols⟩ rows.flatten.toArray = .ok flat ∧
      Tiles flat rows := by
  have hlen := length_flatten_of_width hwidth
  let flat : RowMajor α := ⟨⟨rows.length, cols⟩, rows.flatten.toArray, hlen, hfits⟩
  have hcut : flat.shape.cut flat.data = rows :=
    eq_of_flatten_eq flat.tiles.length flat.tiles.width hwidth flat.flatten_cut
  exact ⟨flat, RowMajor.ofArray_eq_ok _ (hlen ▸ hfits) hlen, hcut ▸ flat.tiles⟩

theorem RowSlices.exists_of_rowMajor (flat : RowMajor α) :
    ∃ table, RowSlices.ofRows flat.shape.cols (flat.shape.cut flat.data) = .ok table ∧
      Tiles table (flat.shape.cut flat.data) := by
  obtain ⟨table, htable⟩ := RowSlices.exists_ofRows_eq_ok_iff.mpr flat.tiles.width
  exact ⟨table, htable, RowSlices.tiles_of_ofRows htable⟩

namespace OwnedMatrix

variable {m : OwnedMatrix α}

theorem rowOffsets_eq (h : m.data.size = m.rows * m.cols) :
    m.rowOffsets = (List.range m.rows).map (· * m.cols) := by
  rw [rowOffsets]
  split
  · rename_i hcols
    simp [hcols, List.map_const']
  · rename_i hcols
    have hpos : 0 < m.cols := Nat.pos_of_ne_zero hcols
    have hcount : (m.data.size + m.cols - 1) / m.cols = m.rows := by
      rw [h, Nat.add_sub_assoc hpos, Nat.mul_comm, Nat.mul_add_div hpos,
        Nat.div_eq_of_lt (Nat.sub_lt hpos Nat.one_pos), Nat.add_zero]
    rw [hcount]

theorem rowSlices_eq (h : m.data.size = m.rows * m.cols) :
    m.rowSlices = RowSlices.ofRows m.cols (m.shape.cut m.data) := by
  rw [rowSlices, rowOffsets_eq h, List.map_map]
  rfl

end OwnedMatrix

theorem views_accept_and_interchange {β : Type} [Accumulator β] [Widening α β] :
    (∀ (s : Shape) (data : Array α),
      ((∃ view, RowMajor.ofArray s data = .ok view) ↔
        s.rows * s.cols < addressSpace ∧ s.rows * s.cols = data.size) ∧
      ∀ e, RowMajor.ofArray s data = .error e ↔
        addressSpace ≤ s.rows * s.cols ∧ e = .shapeOverflow s ∨
        s.rows * s.cols < addressSpace ∧ s.rows * s.cols ≠ data.size ∧
          e = .shapeMismatch s data.size) ∧
    (∀ (cols : Nat) (rows : List (List α)),
      ((∃ view, RowSlices.ofRows cols rows = .ok view) ↔ ∀ p ∈ rows, p.length = cols) ∧
      ∀ e, RowSlices.ofRows cols rows = .error e ↔
        ∃ k, ∃ h : k < rows.length, rows[k].length ≠ cols ∧
          (∀ j (hj : j < k), rows[j].length = cols) ∧ e = .raggedRow k cols rows[k].length) ∧
    (∀ (cols : Nat) (rows : List (List α)) (table : RowSlices α),
      RowSlices.ofRows cols rows = .ok table → rows.flatten.length < addressSpace →
      ∃ flat, RowMajor.ofArray ⟨rows.length, cols⟩ rows.flatten.toArray = .ok flat ∧
        (∀ r < rows.length, ∃ p, ∀ mode, row mode flat r = some p ∧ row mode table r = some p) ∧
        (sumMatrix flat : β) = sumMatrix table) ∧
    ∀ (s : Shape) (data : Array α) (flat : RowMajor α), RowMajor.ofArray s data = .ok flat →
      ∃ table, RowSlices.ofRows s.cols (s.cut data) = .ok table ∧
        (OwnedMatrix.mk s.rows s.cols data).rowSlices = .ok table ∧
        (∀ r < s.rows, ∃ p, ∀ mode, row mode table r = some p ∧ row mode flat r = some p) ∧
        (sumMatrix table : β) = sumMatrix flat := by
  refine ⟨fun s data => ⟨RowMajor.exists_ofArray_eq_ok_iff, fun _ => RowMajor.ofArray_eq_error_iff⟩,
    fun cols rows => ⟨RowSlices.exists_ofRows_eq_ok_iff, fun _ => RowSlices.ofRows_eq_error_iff⟩,
    ?_, ?_⟩
  · intro cols rows table htable hfits
    have htiles := RowSlices.tiles_of_ofRows htable
    have hwidth := RowSlices.exists_ofRows_eq_ok_iff.mp ⟨table, htable⟩
    obtain ⟨flat, hflat, htiles'⟩ := RowMajor.exists_of_rows hwidth hfits
    exact ⟨flat, hflat, fun _ hr => htiles'.exists_row htiles hr,
      htiles'.sumMatrix_eq.trans htiles.sumMatrix_eq.symm⟩
  · intro s data flat hflat
    obtain ⟨-, rfl, rfl⟩ := RowMajor.of_ofArray hflat
    obtain ⟨table, htable, htiles⟩ := RowSlices.exists_of_rowMajor flat
    refine ⟨table, htable, (OwnedMatrix.rowSlices_eq flat.size_data).trans htable, ?_,
      htiles.sumMatrix_eq.trans flat.tiles.sumMatrix_eq.symm⟩
    intro r hr
    exact htiles.exists_row flat.tiles (flat.tiles.length ▸ hr)

theorem views_accept_and_interchange_halves :
    RowMajor.ofArray ⟨2 ^ 63, 2⟩ (#[] : Array Int16) = .error (.shapeOverflow ⟨2 ^ 63, 2⟩) ∧
      RowMajor.ofArray ⟨2, 3⟩ (#[1, 2, 3, 4, 5] : Array Int16) =
        .error (.shapeMismatch ⟨2, 3⟩ 5) ∧
      RowSlices.ofRows 2 [[(1 : Int16), 2], [3], [4, 5, 6]] = .error (.raggedRow 1 2 1) ∧
      RowSlices.ofRows 3 [[30000, 30000, -5], [7, 8, 9]] = .ok halves ∧
      (∃ flat : RowMajor Int16, RowMajor.ofArray ⟨2, 3⟩ grid.data = .ok flat ∧
        (sumMatrix flat : Int32) = sumMatrix halves) ∧
      RowMajor.ofArray ⟨2 ^ 64 - 1, 0⟩ tall.data = .ok tall ∧
      ∃ table, RowSlices.ofRows 0 ((Shape.mk (2 ^ 64 - 1) 0).cut tall.data) = .ok table ∧
        (sumMatrix table : Int32) = sumMatrix tall := by
  have hhalves : RowSlices.ofRows 3 [[30000, 30000, -5], [7, 8, 9]] = .ok halves := rfl
  have htall : RowMajor.ofArray ⟨2 ^ 64 - 1, 0⟩ tall.data = .ok tall := rfl
  obtain ⟨hflat, hrows, hjoin, hcut⟩ := views_accept_and_interchange (α := Int16) (β := Int32)
  obtain ⟨flat, hjoined, -, hsum⟩ := hjoin _ _ _ hhalves (by decide)
  obtain ⟨table, htable, -, -, hsum'⟩ := hcut _ _ _ htall
  refine ⟨((hflat _ _).2 _).mpr (Or.inl ⟨by decide, rfl⟩),
    ((hflat _ _).2 _).mpr (Or.inr ⟨by decide, by decide, rfl⟩),
    ((hrows _ _).2 _).mpr ⟨1, by decide, by decide, by decide, rfl⟩,
    hhalves, ⟨flat, hjoined, hsum⟩, htall, table, htable, hsum'⟩

end AbiConformance
