import AbiConformance.Proofs.Matrix.Acceptance
import AbiConformance.Proofs.Sum.Integers
import Mathlib.Data.List.Infix

namespace AbiConformance

open Integral Wrapping MatrixView

section History

variable {α β ν : Type} [Accumulator β] [Widening α β] [MatrixView ν α]

abbrev Accumulator.history (β : Type) [Accumulator β] : Accumulator (List β) where
  zero := [Accumulator.zero]
  add totals xs := totals ++ xs.map (Accumulator.add (totals.getLastD Accumulator.zero))

abbrev Widening.history (α : Type) {β : Type} [Widening α β] : Widening α (List β) :=
  ⟨fun x => [Widening.widen x]⟩

def partialSums (m : ν) : List β := @sumMatrix α (List β) ν (.history β) (.history α) _ m

theorem sumWideFrom_history (totals : List β) (last : β) (xs : List α) :
    @sumWideFrom α (List β) (.history β) (.history α) (totals ++ [last]) xs =
      totals ++ xs.inits.map (sumWideFrom last) := by
  induction xs generalizing totals last with
  | nil => rfl
  | cons x xs ih =>
    have hstep : totals ++ [last] ++ [Widening.widen x].map
        (Accumulator.add ((totals ++ [last]).getLastD Accumulator.zero)) =
        totals ++ [last] ++ [Accumulator.add last (Widening.widen x)] := by
      rw [List.getLastD_concat]
      rfl
    calc @sumWideFrom α (List β) (.history β) (.history α) (totals ++ [last]) (x :: xs)
        = @sumWideFrom α (List β) (.history β) (.history α)
            (totals ++ [last] ++ [Accumulator.add last (Widening.widen x)]) xs := by
          rw [← hstep]
          rfl
      _ = totals ++ (x :: xs).inits.map (sumWideFrom last) := by
          rw [ih, List.inits_cons, List.map_cons, List.map_map, List.append_assoc]
          rfl

theorem Tiles.partialSums_eq {m : ν} {pieces : List (List α)} (h : Tiles m pieces) :
    (partialSums m : List β) = (elements m).inits.map sumWide := by
  rw [partialSums, @Tiles.sumMatrix_eq α (List β) ν _ m pieces (.history β) (.history α) h,
    h.elements_eq]
  exact sumWideFrom_history [] Accumulator.zero pieces.flatten

end History

section Bounds

variable {α : Type} [Accumulator α] [Integral α] [Wrapping α]

theorem Represents.toInt_eq {x : α} {n : Int} (h : Represents x n) (hn : FitsIn (bits α) n) :
    toInt x = n :=
  (toInt_fitsIn x).eq_of_modEq hn h.modEq

theorem exactSum_bounds (xs : List α) : -(xs.length * 2 ^ bits α) ≤ 2 * exactSum xs ∧
    2 * exactSum xs + xs.length ≤ xs.length * 2 ^ bits α := by
  induction xs with
  | nil => simp
  | cons x xs ih =>
    obtain ⟨hl, hu⟩ := toInt_fitsIn x
    obtain ⟨ihl, ihu⟩ := ih
    rw [exactSum_cons, List.length_cons, Nat.cast_succ, Int.add_mul, Int.one_mul]
    constructor <;> omega

omit [Accumulator α] [Wrapping α] in
theorem exactSum_replicate (n : Nat) (x : α) : exactSum (List.replicate n x) = n * toInt x := by
  rw [exactSum_eq_sum_map, List.map_replicate, List.sum_replicate, nsmul_eq_mul]

end Bounds

namespace IntegerType

def headroom : IntegerType → Nat
  | int8 => 2 ^ 24
  | int16 => 2 ^ 16
  | int32 => 1
  | int64 => 1

def least : (t : IntegerType) → t.Carrier
  | int8 => Int8.minValue
  | int16 => Int16.minValue
  | int32 => Int32.minValue
  | int64 => Int64.minValue

theorem two_pow_bits_wide (t : IntegerType) :
    (2 ^ bits t.Wide : Int) = t.headroom * 2 ^ bits t.Carrier := by
  cases t <;> rfl

theorem two_mul_toInt_least (t : IntegerType) : 2 * toInt t.least = -2 ^ bits t.Carrier := by
  cases t <;> rfl

theorem fitsIn_exactSum {t : IntegerType} {xs : List t.Carrier} (h : xs.length ≤ t.headroom) :
    FitsIn (bits t.Wide) (exactSum xs) := by
  obtain ⟨hl, hu⟩ := exactSum_bounds xs
  have hpos : (0 : Int) < 2 ^ bits t.Carrier := by positivity
  have hle : (xs.length : Int) * 2 ^ bits t.Carrier ≤ 2 ^ bits t.Wide := by
    rw [t.two_pow_bits_wide]
    exact Int.mul_le_mul_of_nonneg_right (Int.ofNat_le.mpr h) hpos.le
  refine ⟨by omega, ?_⟩
  -- Every element falls short of the upper end, so a sum that has one never reaches it.
  rcases Nat.eq_zero_or_pos xs.length with hzero | hsome
  · rw [hzero] at hu
    have hwide : (0 : Int) < 2 ^ bits t.Wide := by positivity
    omega
  · omega

theorem toInt_sumWide {t : IntegerType} {xs : List t.Carrier} (h : xs.length ≤ t.headroom) :
    toInt (sumWide xs : t.Wide) = exactSum xs :=
  (represents_sumWide xs).toInt_eq (fitsIn_exactSum h)

theorem not_fitsIn_of_least {t : IntegerType} {n : Nat} (h : t.headroom < n) :
    ¬FitsIn (bits t.Wide) (exactSum (List.replicate n t.least)) := by
  rintro ⟨hl, -⟩
  have hpos : (0 : Int) < 2 ^ bits t.Carrier := by positivity
  have hlt : (t.headroom : Int) * 2 ^ bits t.Carrier < n * 2 ^ bits t.Carrier :=
    Int.mul_lt_mul_of_pos_right (Int.ofNat_lt.mpr h) hpos
  have hsum : 2 * exactSum (List.replicate n t.least) = -(n * 2 ^ bits t.Carrier) := by
    rw [exactSum_replicate, Int.mul_left_comm, t.two_mul_toInt_least, Int.mul_neg]
  rw [hsum, t.two_pow_bits_wide] at hl
  omega

end IntegerType

structure ExactThroughout {α β ν : Type} [Accumulator β] [Widening α β] [Integral α] [Integral β]
    [Wrapping β] [MatrixView ν α] (m : ν) : Prop where
  fits : ∀ p ∈ (elements m).inits, FitsIn (bits β) (exactSum p)
  partials : (partialSums m : List β).map toInt = (elements m).inits.map exactSum
  total : toInt (sumMatrix m : β) = exactSum (elements m)

theorem Tiles.length_elements {α ν : Type} [MatrixView ν α] {m : ν} {pieces : List (List α)}
    (h : Tiles m pieces) : (elements m).length = (shape m).rows * (shape m).cols := by
  rw [h.elements_eq, length_flatten_of_width h.width, h.length]

theorem Tiles.exactThroughout {t : IntegerType} {ν : Type} [MatrixView ν t.Carrier] {m : ν}
    {pieces : List (List t.Carrier)} (h : Tiles m pieces)
    (hn : (shape m).rows * (shape m).cols ≤ t.headroom) : ExactThroughout m := by
  rw [← h.length_elements] at hn
  have hshort : ∀ p ∈ (elements m).inits, p.length ≤ t.headroom :=
    fun p hp => ((List.mem_inits p _).mp hp).length_le.trans hn
  refine ⟨fun p hp => IntegerType.fitsIn_exactSum (hshort p hp), ?_, ?_⟩
  · rw [h.partialSums_eq, List.map_map]
    exact List.map_congr_left fun p hp => IntegerType.toInt_sumWide (hshort p hp)
  · rw [h.sumMatrix_eq, ← h.elements_eq]
    exact IntegerType.toInt_sumWide hn

namespace Memory

variable {α β : Type} [Scalar α] [Accumulator β] [Widening α β]

theorem length_slice_le (m : Memory) (p : Pointer) (n : Nat) : (m.slice α p n).length ≤ n := by
  unfold slice
  split
  · exact Nat.zero_le n
  · exact (length_loadArray m p.addr n).le

def rowElements (α : Type) [Scalar α] (m : Memory) (s : Shape) (table : Pointer) : List α :=
  (List.range s.rows).flatMap fun r =>
    m.loadArray α (m.load Pointer (table.addr + r * 8)).addr s.cols

theorem length_rowElements (m : Memory) (s : Shape) (table : Pointer) :
    (m.rowElements α s table).length = s.rows * s.cols := by
  simp [rowElements, List.length_flatMap]

theorem sumIndirect_of_present {m : Memory} {s : Shape} {table : Pointer}
    (h : s.isEmpty = true ∨ table.isNull = false ∧
      ∀ r < s.rows, (m.load Pointer (table.addr + r * 8)).isNull = false) :
    (m.sumIndirect α s table : β) = sumWide (m.rowElements α s table) := by
  cases hs : s.isEmpty with
  | true =>
    have hnil : m.rowElements α s table = [] := by
      rw [← List.length_eq_zero_iff, length_rowElements, Shape.isEmpty_iff.mp hs]
    rw [sumIndirect_of_empty hs, hnil]
    rfl
  | false =>
    obtain ⟨ht, hrows⟩ := h.resolve_left (by simp [hs])
    exact sumIndirect_of_rows hs ht hrows

end Memory

theorem IntegerType.matrix_sums_exact_up_to_headroom (t : IntegerType) :
    (∀ view : RowMajor t.Carrier, view.shape.rows * view.shape.cols ≤ t.headroom →
      ExactThroughout view) ∧
    (∀ view : RowSlices t.Carrier, view.shape.rows * view.shape.cols ≤ t.headroom →
      ExactThroughout view) ∧
    (∀ (m : Memory) (rows cols : Int32),
      let s := Memory.shapeOf rows cols
      s.rows * s.cols ≤ t.headroom →
      (∀ data, ∃ x, (Call.sumMatrix t.element rows cols data).run m = (t.element.wideValue x, m) ∧
        toInt x = exactSum (m.slice t.Carrier data (s.rows * s.cols))) ∧
      ∀ table, s.isEmpty = true ∨ table.isNull = false ∧
          (∀ r < s.rows, (m.load Pointer (table.addr + r * 8)).isNull = false) →
        ∃ x, (Call.sumMatrixRows t.element rows cols table).run m =
            (t.element.wideValue x, m) ∧
          toInt x = exactSum (m.rowElements t.Carrier s table)) ∧
    ∀ s : Shape, t.headroom < s.rows * s.cols → s.rows * s.cols < addressSpace →
      ∃ (data : Array t.Carrier) (flat : RowMajor t.Carrier) (table : RowSlices t.Carrier),
        RowMajor.ofArray s data = .ok flat ∧ RowSlices.ofRows s.cols (s.cut data) = .ok table ∧
        toInt (sumMatrix flat : t.Wide) ≠ exactSum data.toList ∧
        toInt (sumMatrix table : t.Wide) ≠ exactSum data.toList := by
  refine ⟨fun view h => view.tiles.exactThroughout h, fun view h => view.tiles.exactThroughout h,
    ?_, ?_⟩
  · intro m rows cols s hn
    constructor
    · intro data
      have hsum := toInt_sumWide ((Memory.length_slice_le m data (s.rows * s.cols)).trans hn)
      have hlen := Memory.shapeOf_len_lt rows cols
      refine ⟨_, ?_, hsum⟩
      simp only [Call.run, Memory.sumContiguous_eq_sumWide_slice hlen]
      rfl
    · intro table htable
      have hsum := toInt_sumWide ((Memory.length_rowElements m s table).le.trans hn)
      have hrows := Memory.sumIndirect_of_present (α := t.Carrier) (β := t.Wide) htable
      exact ⟨_, congrArg (fun x => (t.element.wideValue x, m)) hrows, hsum⟩
  · intro s hover hfits
    let data := (List.replicate (s.rows * s.cols) t.least).toArray
    have hsize : data.size = s.rows * s.cols := by simp [data]
    let flat : RowMajor t.Carrier := ⟨s, data, hsize, hsize ▸ hfits⟩
    obtain ⟨table, htable, htiles⟩ := RowSlices.exists_of_rowMajor flat
    have hwraps : toInt (sumWide data.toList : t.Wide) ≠ exactSum data.toList := by
      intro h
      apply not_fitsIn_of_least hover
      exact h ▸ toInt_fitsIn (sumWide data.toList : t.Wide)
    refine ⟨data, flat, table, RowMajor.ofArray_eq_ok data hfits hsize, htable, ?_, ?_⟩
    · rwa [sumMatrix_rowMajor]
    · rwa [htiles.sumMatrix_eq, flat.flatten_cut]

def lowest : RowMajor Int16 where
  shape := ⟨256, 256⟩
  data := (List.replicate (256 * 256) Int16.minValue).toArray
  size_data := by rw [List.size_toArray, List.length_replicate]
  fits := by
    rw [List.size_toArray, List.length_replicate]
    decide

theorem IntegerType.matrix_sums_exact_up_to_headroom_lowest :
    let m := Memory.empty.storeArray 64 [Int16.minValue, Int16.minValue]
    256 * 256 ≤ int16.headroom ∧ ExactThroughout lowest ∧
      toInt (sumMatrix lowest : Int32) = -2 ^ 31 ∧
      (Call.sumMatrix .int16 2 1 (.ofAddr 64)).run m = (.int32 (-65536), m) ∧
      ∃ (flat : RowMajor Int16), flat.shape = ⟨1, 256 * 256 + 1⟩ ∧
        toInt (sumMatrix flat : Int32) ≠ exactSum flat.data.toList := by
  intro m
  obtain ⟨hflat, -, hcalls, hover⟩ := IntegerType.int16.matrix_sums_exact_up_to_headroom
  have hlowest : ExactThroughout lowest := hflat lowest (by decide)
  obtain ⟨x, hrun, hx⟩ := (hcalls m 2 1 (by decide)).1 (.ofAddr 64)
  have hsum : x = -65536 := Int32.toInt_inj.mp (hx.trans (by decide))
  obtain ⟨data, flat, -, hview, -, hne, -⟩ := hover ⟨1, 256 * 256 + 1⟩ (by decide) (by decide)
  obtain ⟨-, hshape, rfl⟩ := RowMajor.of_ofArray hview
  refine ⟨by decide, hlowest, ?_, hsum ▸ hrun, flat, hshape, hne⟩
  rw [hlowest.total, elements_rowMajor]
  exact exactSum_replicate (256 * 256) Int16.minValue

end AbiConformance
