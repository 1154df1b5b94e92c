import AbiConformance.Accumulation
import AbiConformance.Matrix.Shape

namespace AbiConformance

class MatrixView (ν : Type) (α : outParam Type) where
  shape : ν → Shape
  row : Overflow → ν → Nat → Option (List α)

structure RowMajor (α : Type) where
  shape : Shape
  data : Array α
  size_data : data.size = shape.rows * shape.cols
  fits : data.size < addressSpace

structure RowSlices (α : Type) where
  cols : Nat
  rows : Array (List α)
  length_row : ∀ r ∈ rows, r.length = cols

variable {α : Type}

namespace RowMajor

def ofArray (s : Shape) (data : Array α) : Except LayoutError (RowMajor α) :=
  match h : s.len with
  | .error e => .error e
  | .ok n =>
    if hd : data.size = n then
      have hlen := Shape.len_eq_ok.mp h
      .ok ⟨s, data, hd.trans hlen.1.symm, Nat.lt_of_le_of_lt (Nat.le_of_eq hd) hlen.2⟩
    else .error (.shapeMismatch s data.size)

def row (mode : Overflow) (m : RowMajor α) (r : Nat) : Option (List α) := do
  let start ← mode.fit (r * m.shape.cols)
  let stop ← mode.fit (start + m.shape.cols)
  if start ≤ stop ∧ stop ≤ m.data.size then some (m.data.extract start stop).toList else none

instance : MatrixView (RowMajor α) α := ⟨shape, row⟩

end RowMajor

namespace RowSlices

def firstRagged (cols : Nat) : Nat → List (List α) → Option LayoutError
  | _, [] => none
  | i, r :: rs =>
    if r.length = cols then firstRagged cols (i + 1) rs
    else some (.raggedRow i cols r.length)

theorem firstRagged_eq_none {cols i : Nat} {rows : List (List α)} :
    firstRagged cols i rows = none ↔ ∀ r ∈ rows, r.length = cols := by
  induction rows generalizing i with
  | nil => simp [firstRagged]
  | cons r rs ih =>
    simp only [firstRagged, List.forall_mem_cons]
    split
    · simp only [true_and, *]
    · simp [*]

def ofRows (cols : Nat) (rows : List (List α)) : Except LayoutError (RowSlices α) :=
  match h : firstRagged cols 0 rows with
  | some e => .error e
  | none => .ok ⟨cols, rows.toArray, by simpa using firstRagged_eq_none.mp h⟩

def shape (m : RowSlices α) : Shape := ⟨m.rows.size, m.cols⟩

def row (_mode : Overflow) (m : RowSlices α) (r : Nat) : Option (List α) := m.rows[r]?

instance : MatrixView (RowSlices α) α := ⟨shape, row⟩

end RowSlices

variable {β ν : Type} [Accumulator β] [Widening α β] [MatrixView ν α]

/-- None if a row is not there. -/
def visitRows (mode : Overflow) (m : ν) : Option β :=
  (List.range (MatrixView.shape m).rows).foldlM
    (fun total r => (MatrixView.row mode m r).map (sumWideFrom total)) Accumulator.zero

def sumMatrix (m : ν) : β := (visitRows .checked m).getD Accumulator.zero

end AbiConformance
