import AbiConformance.Proofs.Matrix.Acceptance
import AbiConformance.Proofs.Matrix.LayoutAgreement

namespace AbiConformance

def Shape.cells (s : Shape) : List (Nat × Nat) :=
  (List.range s.rows).flatMap fun r => (List.range s.cols).map fun c => (r, c)

namespace Shape

variable {s : Shape}

theorem mem_cells {r c : Nat} : (r, c) ∈ s.cells ↔ r < s.rows ∧ c < s.cols := by
  simp [cells]

theorem pairwise_cells (s : Shape) : s.cells.Pairwise (Prod.Lex (· < ·) (· < ·)) := by
  rw [cells, List.pairwise_flatMap]
  constructor
  · intro r _
    rw [List.pairwise_map]
    exact List.pairwise_lt_range.imp fun h => Prod.Lex.right r h
  · apply List.pairwise_lt_range.imp
    intro q r hqr x hx y hy
    obtain ⟨c, _, rfl⟩ := List.mem_map.mp hx
    obtain ⟨d, _, rfl⟩ := List.mem_map.mp hy
    exact Prod.Lex.left c d hqr

theorem map_range_mul {α : Type} (g : Nat → α) (rows cols : Nat) :
    (List.range (rows * cols)).map g =
      (List.range rows).flatMap fun r => (List.range cols).map fun c => g (r * cols + c) := by
  induction rows with
  | zero => simp
  | succ rows ih =>
    rw [Nat.succ_mul, List.range_add, List.map_append, ih, List.range_succ, List.flatMap_append,
      List.flatMap_singleton, List.map_map]
    rfl

theorem div_mod_index {cols r c : Nat} (hc : c < cols) :
    ((r * cols + c) / cols, (r * cols + c) % cols) = (r, c) := by
  have hpos : 0 < cols := Nat.zero_lt_of_lt hc
  rw [Nat.mul_comm, Nat.mul_add_div hpos, Nat.div_eq_of_lt hc, Nat.mul_add_mod,
    Nat.mod_eq_of_lt hc, Nat.add_zero]

theorem cells_eq (s : Shape) :
    s.cells = (List.range (s.rows * s.cols)).map fun i => (i / s.cols, i % s.cols) := by
  rw [map_range_mul]
  apply List.flatMap_congr
  intro r _
  apply List.map_congr_left
  intro c hc
  exact (div_mod_index (List.mem_range.mp hc)).symm

@[simp] theorem length_cells (s : Shape) : s.cells.length = s.rows * s.cols := by
  rw [cells_eq, List.length_map, List.length_range]

theorem index_lt {r c : Nat} (hr : r < s.rows) (hc : c < s.cols) :
    r * s.cols + c < s.rows * s.cols := by
  have hend := s.row_end_le hr
  omega

theorem getElem?_cells {r c : Nat} (hr : r < s.rows) (hc : c < s.cols) :
    s.cells[r * s.cols + c]? = some (r, c) := by
  rw [cells_eq, List.getElem?_map, List.getElem?_range (index_lt hr hc), Option.map_some,
    div_mod_index hc]

end Shape

theorem Memory.shapeOf_ofNat {rows cols : Nat} (hrows : rows < 2 ^ 31) (hcols : cols < 2 ^ 31) :
    Memory.shapeOf (.ofNat rows) (.ofNat cols) = ⟨rows, cols⟩ := by
  rw [Memory.shapeOf, elementCount_eq (Int32.toInt_ofNat_of_lt hrows),
    elementCount_eq (Int32.toInt_ofNat_of_lt hcols)]

namespace OwnedMatrix

variable {α σ : Type} {f : Nat → Nat → StateM σ α}

def answers (f : Nat → Nat → StateM σ α) (cells : List (Nat × Nat)) : StateM σ (List α) :=
  cells.mapM fun cell => f cell.1 cell.2

theorem fillRow_eq (cols : Nat) (data : Array α) (r : Nat) :
    fillRow cols f data r =
      (fun xs => data ++ xs.toArray) <$> answers f ((List.range cols).map fun c => (r, c)) := by
  simp only [fillRow, answers, bind_pure_comp, List.foldlM_push_eq_append, List.mapM_map]
  rfl

theorem foldlM_fillRow (cols : Nat) (rs : List Nat) (data : Array α) :
    rs.foldlM (fillRow cols f) data = (fun xs => data ++ xs.toArray) <$>
      answers f (rs.flatMap fun r => (List.range cols).map fun c => (r, c)) := by
  -- A row appends to what the rows before it filled, so the buffer to start with is any.
  induction rs generalizing data with
  | nil => simp [answers]
  | cons r rs ih =>
    rw [List.foldlM_cons, List.flatMap_cons, answers, List.mapM_append, fillRow_eq]
    simp [ih, answers]

theorem fill_eq (rows cols : Nat) (f : Nat → Nat → StateM σ α) :
    fill rows cols f =
      (fun xs => ⟨rows, cols, xs.toArray⟩) <$> answers f (Shape.cells ⟨rows, cols⟩) := by
  rw [fill, foldlM_fillRow]
  simp [Shape.cells]

@[simp] theorem run_answers_nil (s : σ) : (answers f []).run s = ([], s) := rfl

@[simp] theorem run_answers_cons (cell : Nat × Nat) (cells : List (Nat × Nat)) (s : σ) :
    (answers f (cell :: cells)).run s =
      (((f cell.1 cell.2).run s).1 :: ((answers f cells).run ((f cell.1 cell.2).run s).2).1,
        ((answers f cells).run ((f cell.1 cell.2).run s).2).2) := by
  rw [answers, List.mapM_cons]
  rfl

theorem length_answers (cells : List (Nat × Nat)) (s : σ) :
    ((answers f cells).run s).1.length = cells.length := by
  induction cells generalizing s with
  | nil => rfl
  | cons cell cells ih => rw [run_answers_cons, List.length_cons, ih, List.length_cons]

def stateAt (f : Nat → Nat → StateM σ α) (start : σ) (cells : List (Nat × Nat)) (i : Nat) : σ :=
  ((answers f (cells.take i)).run start).2

theorem stateAt_length (f : Nat → Nat → StateM σ α) (start : σ) (cells : List (Nat × Nat)) :
    stateAt f start cells cells.length = ((answers f cells).run start).2 := by
  rw [stateAt, List.take_length]

theorem stateAt_succ (start : σ) (cell : Nat × Nat) (cells : List (Nat × Nat)) (i : Nat) :
    stateAt f start (cell :: cells) (i + 1) =
      stateAt f ((f cell.1 cell.2).run start).2 cells i := by
  rw [stateAt, List.take_succ_cons, run_answers_cons]
  rfl

theorem run_generator_at (f : Nat → Nat → StateM σ α) (start : σ) {cells : List (Nat × Nat)}
    {i : Nat} (h : i < cells.length) :
    ∃ x, ((answers f cells).run start).1[i]? = some x ∧
      (f cells[i].1 cells[i].2).run (stateAt f start cells i) =
        (x, stateAt f start cells (i + 1)) := by
  induction cells generalizing start i with
  | nil => cases h
  | cons cell cells ih =>
    rw [run_answers_cons, stateAt_succ]
    cases i with
    | zero => exact ⟨((f cell.1 cell.2).run start).1, rfl, rfl⟩
    | succ i =>
      rw [stateAt_succ]
      exact ih _ (Nat.lt_of_succ_lt_succ h)

def noting (f : Nat → Nat → StateM σ α) (r c : Nat) : StateM (σ × List (Nat × Nat)) α :=
  fun (s, noted) => (((f r c).run s).1, (((f r c).run s).2, noted ++ [(r, c)]))

theorem run_answers_noting (cells noted : List (Nat × Nat)) (s : σ) :
    (answers (noting f) cells).run (s, noted) =
      (((answers f cells).run s).1, (((answers f cells).run s).2, noted ++ cells)) := by
  induction cells generalizing s noted with
  | nil => rw [run_answers_nil, run_answers_nil, List.append_nil]
  | cons cell cells ih =>
    have hcall : (noting f cell.1 cell.2).run (s, noted) =
        (((f cell.1 cell.2).run s).1, (((f cell.1 cell.2).run s).2, noted ++ [cell])) := rfl
    rw [run_answers_cons, run_answers_cons, hcall, ih, List.append_assoc]
    rfl

def ofAnswers (s : Shape) (xs : List α) : OwnedMatrix α := ⟨s.rows, s.cols, xs.toArray⟩

theorem run_fill (s : Shape) (f : Nat → Nat → StateM σ α) (start : σ) :
    (fill s.rows s.cols f).run start =
      (ofAnswers s ((answers f s.cells).run start).1,
        stateAt f start s.cells (s.rows * s.cols)) := by
  rw [fill_eq, ← s.length_cells, stateAt_length]
  rfl

theorem run_fill_noting (s : Shape) (f : Nat → Nat → StateM σ α) (start : σ) :
    (fill s.rows s.cols (noting f)).run (start, []) =
      (ofAnswers s ((answers f s.cells).run start).1,
        (stateAt f start s.cells (s.rows * s.cols), s.cells)) := by
  rw [fill_eq, ← s.length_cells, stateAt_length]
  exact congrArg (fun run => (ofAnswers s run.1, run.2)) (run_answers_noting s.cells [] start)

theorem size_ofAnswers (s : Shape) (f : Nat → Nat → StateM σ α) (start : σ) :
    (ofAnswers s ((answers f s.cells).run start).1).data.size = s.rows * s.cols := by
  rw [ofAnswers, List.size_toArray, length_answers, Shape.length_cells]

theorem size_fill (rows cols : Nat) (f : Nat → Nat → StateM σ α) (start : σ) :
    ((fill rows cols f).run start).1.data.size = rows * cols := by
  rw [run_fill ⟨rows, cols⟩]
  exact size_ofAnswers ⟨rows, cols⟩ f start

theorem run_generate {width rows cols : Nat} (hfits : rows * cols < addressSpace)
    (hroom : rows * cols * width < 2 ^ 63) (f : Nat → Nat → StateM σ α) (start : σ) :
    (generate width rows cols f).run start =
      (some ((fill rows cols f).run start).1, ((fill rows cols f).run start).2) := by
  rw [generate, if_pos (canReserve_iff.mpr ⟨hfits, hroom⟩)]
  rfl

theorem run_generate_of_large {width rows cols : Nat} (hlarge : 2 ^ 63 ≤ rows * cols * width)
    (f : Nat → Nat → StateM σ α) (start : σ) :
    (generate width rows cols f).run start = (none, start) := by
  have hroom : ¬canReserve width (rows * cols) = true := by
    rw [canReserve_iff]
    omega
  rw [generate, if_neg hroom]
  rfl

theorem fill_of_generate {width rows cols : Nat} {start : σ} {m : OwnedMatrix α}
    (h : ((generate width rows cols f).run start).1 = some m) :
    m = ((fill rows cols f).run start).1 := by
  rw [generate] at h
  split at h
  · exact (Option.some.inj h).symm
  · cases h

section Starts

variable {m : OwnedMatrix α}

theorem length_rowOffsets (h : m.data.size = m.rows * m.cols) : m.rowOffsets.length = m.rows := by
  rw [rowOffsets_eq h, List.length_map, List.length_range]

theorem rowStarts_eq_some (h : m.data.size = m.rows * m.cols) (hroom : m.rows * 8 < 2 ^ 63) :
    m.rowStarts = some m.rowOffsets := by
  have hlen := length_rowOffsets h
  exact if_pos (canReserve_iff.mpr ⟨by simp only [addressSpace]; omega, by rwa [hlen]⟩)

theorem eq_rowOffsets_of_rowStarts {starts : List Nat} (h : m.rowStarts = some starts) :
    starts = m.rowOffsets := by
  rw [rowStarts] at h
  split at h
  · exact (Option.some.inj h).symm
  · cases h

theorem rowStarts_eq_none (h : m.data.size = m.rows * m.cols) (hlarge : 2 ^ 63 ≤ m.rows * 8) :
    m.rowStarts = none := by
  apply if_neg
  rw [canReserve_iff, length_rowOffsets h]
  omega

end Starts

section Memory

variable [Scalar α]

structure HandedOut (m : OwnedMatrix α) (mem : Memory) (data table : Pointer) : Prop where
  data_valid : data.isNull = false
  table_valid : table.isNull = false
  fits : data.addr + m.data.size * Scalar.width α ≤ addressSpace
  elements : mem.loadArray α data.addr m.data.size = m.data.toList
  pointers : ∃ starts, m.rowStarts = some starts ∧
    mem.loadArray Pointer table.addr starts.length =
      starts.map fun start => .ofAddr (data.addr + start * Scalar.width α)

variable {m : OwnedMatrix α} {mem : Memory} {data table : Pointer}

def place (m : OwnedMatrix α) (mem : Memory) (data table : Nat) : Memory :=
  (mem.storeArray data m.data.toList).storeArray table
    (m.rowOffsets.map fun start => Pointer.ofAddr (data + start * Scalar.width α))

theorem handedOut_place (m : OwnedMatrix α) (mem : Memory) {data table : Nat} (hdata : 0 < data)
    (hbuffer : data + m.data.size * Scalar.width α ≤ table) (htable : table < addressSpace)
    (hstarts : m.rowStarts = some m.rowOffsets) :
    m.HandedOut (m.place mem data table) (.ofAddr data) (.ofAddr table) := by
  have haddr : (Pointer.ofAddr data).addr = data := Pointer.addr_ofAddr (by omega)
  constructor
  · exact Pointer.isNull_ofAddr hdata (by omega)
  · exact Pointer.isNull_ofAddr (by omega) htable
  · rw [haddr]
    omega
  · rw [haddr, place, Memory.loadArray_storeArray_of_disjoint (Or.inl hbuffer)]
    exact mem.loadArray_storeArray data m.data.toList
  · refine ⟨_, hstarts, ?_⟩
    rw [haddr, Pointer.addr_ofAddr htable, place]
    have hload := (mem.storeArray data m.data.toList).loadArray_storeArray table
      (m.rowOffsets.map fun start => Pointer.ofAddr (data + start * Scalar.width α))
    rwa [List.length_map] at hload

theorem HandedOut.load_row (h : m.HandedOut mem data table) (hsize : m.data.size = m.rows * m.cols)
    {r : Nat} (hr : r < m.rows) :
    mem.load Pointer (table.addr + r * 8) = .ofAddr (data.addr + r * m.cols * Scalar.width α) := by
  obtain ⟨starts, hstarts, hpointers⟩ := h.pointers
  obtain rfl := eq_rowOffsets_of_rowStarts hstarts
  have hget := congrArg (·[r]?) hpointers
  simpa [Memory.loadArray, rowOffsets_eq hsize, hr] using hget

theorem HandedOut.tableOf (h : m.HandedOut mem data table)
    (hsize : m.data.size = m.rows * m.cols) : mem.TableOf α m.shape data table := by
  intro r hr
  have hpos : 0 < data.addr := by
    rw [Nat.pos_iff_ne_zero, Ne, ← Pointer.isNull_iff, h.data_valid]
    exact Bool.false_ne_true
  have hlt : data.addr + r * m.cols * Scalar.width α < addressSpace := by
    have hdata := data.addr_lt
    have hfits := h.fits
    have hend := Nat.mul_le_mul_right (m.cols * Scalar.width α) (Nat.succ_le_of_lt hr)
    rw [Nat.succ_mul] at hend
    rw [hsize, Nat.mul_assoc] at hfits
    rw [Nat.mul_assoc]
    -- A row without bytes starts where the buffer does; any other ends inside it.
    rcases Nat.eq_zero_or_pos (m.cols * Scalar.width α) with hzero | hsome
    · rwa [hzero, Nat.mul_zero, Nat.add_zero]
    · simp only [shape] at hend
      omega
  refine ⟨h.table_valid, ?_, ?_⟩
  · rw [h.load_row hsize hr]
    exact Pointer.isNull_ofAddr (by omega) hlt
  · rw [h.load_row hsize hr, Pointer.addr_ofAddr hlt]
    rfl

theorem HandedOut.sumContiguous_eq {β : Type} [Accumulator β] [Widening α β]
    (h : m.HandedOut mem data table) (hsize : m.data.size = m.rows * m.cols)
    (hfits : m.shape.rows * m.shape.cols < addressSpace) :
    (mem.sumContiguous α m.shape data : β) = sumWide m.data.toList := by
  rw [Memory.sumContiguous_eq_sumWide hfits h.data_valid, ← h.elements, hsize]
  rfl

theorem HandedOut.sumIndirect_eq {β : Type} [Accumulator β] [Widening α β]
    (h : m.HandedOut mem data table) (hsize : m.data.size = m.rows * m.cols) :
    (mem.sumIndirect α m.shape table : β) = sumWide m.data.toList := by
  rw [Memory.sumIndirect_eq_sumWide (h.tableOf hsize), ← h.elements, hsize]
  rfl

end Memory

theorem dims_eq {m : OwnedMatrix α} (hr : m.rows < 2 ^ 31) (hc : m.cols < 2 ^ 31) :
    m.dims = some (.ofNat m.rows, .ofNat m.cols) :=
  if_pos ⟨hr, hc⟩

theorem HandedOut.run_sums {e : ElementType} {m : OwnedMatrix e.Carrier} {mem : Memory}
    {data table : Pointer} (h : m.HandedOut mem data table)
    (hsize : m.data.size = m.rows * m.cols) (hr : m.rows < 2 ^ 31) (hc : m.cols < 2 ^ 31) :
    (Call.sumMatrix e (.ofNat m.rows) (.ofNat m.cols) data).run mem =
        (e.wideValue (sumWide m.data.toList), mem) ∧
      (Call.sumMatrixRows e (.ofNat m.rows) (.ofNat m.cols) table).run mem =
        (e.wideValue (sumWide m.data.toList), mem) := by
  have hshape : Memory.shapeOf (.ofNat m.rows) (.ofNat m.cols) = m.shape :=
    Memory.shapeOf_ofNat hr hc
  have hfits := Memory.shapeOf_len_lt (.ofNat m.rows) (.ofNat m.cols)
  rw [hshape] at hfits
  constructor
  · simp only [Call.run, hshape, h.sumContiguous_eq hsize hfits]
  · simp only [Call.run, hshape, h.sumIndirect_eq hsize]

end OwnedMatrix

theorem generated_matrices_within_capacity {σ : Type} :
    (∀ {α : Type} (width rows cols : Nat) (f : Nat → Nat → StateM σ α) (start : σ),
      rows * cols < addressSpace →
      (2 ^ 63 ≤ rows * cols * width →
        (OwnedMatrix.generate width rows cols f).run start = (none, start)) ∧
      (rows * cols * width < 2 ^ 63 →
        ∃ (m : OwnedMatrix α) (state : Nat → σ) (cells : List (Nat × Nat)),
          (OwnedMatrix.generate width rows cols f).run start = (some m, state (rows * cols)) ∧
          (OwnedMatrix.generate width rows cols (OwnedMatrix.noting f)).run (start, []) =
            (some m, (state (rows * cols), cells)) ∧
          cells.Pairwise (Prod.Lex (· < ·) (· < ·)) ∧
          (∀ r c, (r, c) ∈ cells ↔ r < rows ∧ c < cols) ∧
          m.rows = rows ∧ m.cols = cols ∧ m.data.size = rows * cols ∧ state 0 = start ∧
          (∀ r < rows, ∀ c < cols, ∃ x, m.data[r * cols + c]? = some x ∧
            (f r c).run (state (r * cols + c)) = (x, state (r * cols + c + 1))) ∧
          (2 ^ 63 ≤ rows * 8 → m.rowStarts = none) ∧
          (rows * 8 < 2 ^ 63 → ∃ starts, m.rowStarts = some starts ∧ starts.length = rows ∧
            ∀ r < rows, starts[r]? = some (r * cols) ∧ r * cols + cols ≤ m.data.size))) ∧
    ∀ (e : ElementType) (rows cols : Nat) (f : Nat → Nat → StateM σ e.Carrier) (start : σ)
      (m : OwnedMatrix e.Carrier) (mem : Memory) (data table : Pointer),
      let total := m.data.toList.foldl (fun sum x => Accumulator.add sum (Widening.widen x))
        (Accumulator.zero : e.Wide)
      ((OwnedMatrix.generate (Scalar.width e.Carrier) rows cols f).run start).1 = some m →
      rows < 2 ^ 31 → cols < 2 ^ 31 → m.HandedOut mem data table →
      ∃ r c, m.dims = some (r, c) ∧
        (Call.sumMatrix e r c data).run mem = (e.wideValue total, mem) ∧
        (Call.sumMatrixRows e r c table).run mem = (e.wideValue total, mem) := by
  constructor
  · intro α width rows cols f start hfits
    refine ⟨fun hlarge => OwnedMatrix.run_generate_of_large hlarge f start, ?_⟩
    intro hroom
    let s : Shape := ⟨rows, cols⟩
    let m := OwnedMatrix.ofAnswers s ((OwnedMatrix.answers f s.cells).run start).1
    have hsize : m.data.size = m.rows * m.cols := OwnedMatrix.size_ofAnswers s f start
    refine ⟨m, OwnedMatrix.stateAt f start s.cells, s.cells, ?_, ?_, s.pairwise_cells,
      fun r c => Shape.mem_cells, rfl, rfl, hsize, rfl, ?_, OwnedMatrix.rowStarts_eq_none hsize, ?_⟩
    · rw [OwnedMatrix.run_generate hfits hroom, OwnedMatrix.run_fill s f start]
    · rw [OwnedMatrix.run_generate hfits hroom, OwnedMatrix.run_fill_noting s f start]
    · intro r hr c hc
      have hcell : s.cells[r * cols + c]? = some (r, c) := Shape.getElem?_cells hr hc
      obtain ⟨hi, hcell⟩ := List.getElem?_eq_some_iff.mp hcell
      have hcall := OwnedMatrix.run_generator_at f start hi
      rw [hcell] at hcall
      simpa only [m, OwnedMatrix.ofAnswers, List.getElem?_toArray] using hcall
    · intro hrows
      refine ⟨_, OwnedMatrix.rowStarts_eq_some hsize hrows, OwnedMatrix.length_rowOffsets hsize, ?_⟩
      intro r hr
      rw [OwnedMatrix.rowOffsets_eq hsize, hsize]
      exact ⟨by simp [m, OwnedMatrix.ofAnswers, s, hr], Shape.row_end_le (s := s) hr⟩
  · intro e rows cols f start m mem data table total hm hr hc h
    obtain rfl := OwnedMatrix.fill_of_generate hm
    have hsize := OwnedMatrix.size_fill rows cols f start
    exact ⟨_, _, OwnedMatrix.dims_eq hr hc, h.run_sums hsize hr hc⟩

def counting (r c : Nat) : StateM Nat Int16 := fun n => (.ofNat (1000 * n + 10 * r + c), n + 1)

def counted : OwnedMatrix Int16 := ⟨3, 2, #[0, 1001, 2010, 3011, 4020, 5021]⟩

def countedMemory : Memory :=
  (Memory.empty.storeArray 64 counted.data.toList).storeArray 128
    [Pointer.ofAddr 64, .ofAddr 68, .ofAddr 72]

theorem counted_handedOut : counted.HandedOut countedMemory (.ofAddr 64) (.ofAddr 128) where
  data_valid := rfl
  table_valid := rfl
  fits := by decide
  elements := by decide
  pointers := ⟨[0, 2, 4], by decide, by decide⟩

theorem generated_matrices_within_capacity_counted :
    (OwnedMatrix.generate 2 3 2 counting).run 0 = (some counted, 6) ∧
      counted.rowStarts = some [0, 2, 4] ∧
      counted.HandedOut countedMemory (.ofAddr 64) (.ofAddr 128) ∧ counted.dims = some (3, 2) ∧
      (Call.sumMatrix .int16 3 2 (.ofAddr 64)).run countedMemory =
        (.int32 15063, countedMemory) ∧
      (Call.sumMatrixRows .int16 3 2 (.ofAddr 128)).run countedMemory =
        (.int32 15063, countedMemory) ∧
      (OwnedMatrix.generate 2 (2 ^ 62) 1 counting).run 0 = (none, 0) ∧
      ∃ m, ((OwnedMatrix.generate 2 (2 ^ 60) 0 counting).run 0).1 = some m ∧
        m.rowStarts = none := by
  have hrun : (OwnedMatrix.generate 2 3 2 counting).run 0 = (some counted, 6) := rfl
  obtain ⟨hfill, hsums⟩ := generated_matrices_within_capacity (σ := Nat)
  obtain ⟨r, c, hdims, hflat, hrows⟩ := hsums .int16 3 2 counting 0 counted countedMemory
    (.ofAddr 64) (.ofAddr 128) (congrArg Prod.fst hrun) (by decide) (by decide) counted_handedOut
  have hshown : counted.dims = some (3, 2) := rfl
  obtain ⟨rfl, rfl⟩ := Prod.mk.inj (Option.some.inj (hshown.symm.trans hdims))
  obtain ⟨m, state, cells, hempty, -, -, -, -, -, -, -, -, hnone, -⟩ :=
    (hfill 2 (2 ^ 60) 0 counting 0 (by decide)).2 (by decide)
  exact ⟨hrun, by decide, counted_handedOut, hshown, hflat, hrows,
    (hfill 2 (2 ^ 62) 1 counting 0 (by decide)).1 (by decide), m,
    congrArg Prod.fst hempty, hnone (by decide)⟩

theorem generate_stops_at_capacity :
    2 ^ 61 * 1 < addressSpace ∧
      (OwnedMatrix.generate (Scalar.width Binary64) (2 ^ 61) 1 fun _ _ =>
        (pure Binary64.zero : StateM Nat Binary64)).run 0 = (none, 0) ∧
      (OwnedMatrix.mk (2 ^ 60) 0 #[] : OwnedMatrix Binary64).rowStarts = none ∧
      ¬∀ (rows cols : Nat) (f : Nat → Nat → StateM Nat Binary64), rows * cols < addressSpace →
        ∃ m, ((OwnedMatrix.generate (Scalar.width Binary64) rows cols f).run 0).1 = some m := by
  have hrun : (OwnedMatrix.generate (Scalar.width Binary64) (2 ^ 61) 1 fun _ _ =>
      (pure Binary64.zero : StateM Nat Binary64)).run 0 = (none, 0) :=
    OwnedMatrix.run_generate_of_large (by decide) _ 0
  refine ⟨by decide, hrun, OwnedMatrix.rowStarts_eq_none rfl (by decide), ?_⟩
  intro hall
  obtain ⟨m, hm⟩ := hall (2 ^ 61) 1 (fun _ _ => pure Binary64.zero) (by decide)
  rw [hrun] at hm
  cases hm

end AbiConformance
