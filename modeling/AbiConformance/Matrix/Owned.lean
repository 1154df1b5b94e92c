import AbiConformance.Matrix.View

namespace AbiConformance

/-- A list of `n` elements of `width` bytes each takes no more bytes than a signed word counts. -/
def canReserve (width n : Nat) : Bool := n < addressSpace && n * width < 2 ^ 63

theorem canReserve_iff {width n : Nat} :
    canReserve width n = true ↔ n < addressSpace ∧ n * width < 2 ^ 63 := by
  simp only [canReserve, Bool.and_eq_true, decide_eq_true_eq]

structure OwnedMatrix (α : Type) where
  rows : Nat
  cols : Nat
  data : Array α

namespace OwnedMatrix

variable {α σ : Type}

def fillRow (cols : Nat) (f : Nat → Nat → StateM σ α) (data : Array α) (r : Nat) :
    StateM σ (Array α) :=
  (List.range cols).foldlM (fun data c => do return data.push (← f r c)) data

def fill (rows cols : Nat) (f : Nat → Nat → StateM σ α) : StateM σ (OwnedMatrix α) := do
  return ⟨rows, cols, ← (List.range rows).foldlM (fillRow cols f) #[]⟩

def generate (width rows cols : Nat) (f : Nat → Nat → StateM σ α) :
    StateM σ (Option (OwnedMatrix α)) :=
  if canReserve width (rows * cols) then some <$> fill rows cols f else pure none

def shape (m : OwnedMatrix α) : Shape := ⟨m.rows, m.cols⟩

def dims (m : OwnedMatrix α) : Option (Int32 × Int32) :=
  if m.rows < 2 ^ 31 ∧ m.cols < 2 ^ 31 then some (.ofNat m.rows, .ofNat m.cols) else none

def element [Inhabited α] (m : OwnedMatrix α) (r c : Nat) : α :=
  m.data.getD (r * m.cols + c) default

def rowOffsets (m : OwnedMatrix α) : List Nat :=
  if m.cols = 0 then List.replicate m.rows 0
  else (List.range ((m.data.size + m.cols - 1) / m.cols)).map (· * m.cols)

def rowStarts (m : OwnedMatrix α) : Option (List Nat) :=
  if canReserve 8 m.rowOffsets.length then some m.rowOffsets else none

def rowMajor (m : OwnedMatrix α) : Except LayoutError (RowMajor α) :=
  RowMajor.ofArray m.shape m.data

def rowSlices (m : OwnedMatrix α) : Except LayoutError (RowSlices α) :=
  RowSlices.ofRows m.cols (m.rowOffsets.map fun start =>
    (m.data.extract start (start + m.cols)).toList)

def transpose [Inhabited α] (m : OwnedMatrix α) : OwnedMatrix α :=
  ((fill m.cols m.rows fun r c => (pure (m.element c r) : StateM Unit α)).run ()).1

def equal (eq : α → α → Bool) (m n : OwnedMatrix α) : Bool :=
  m.rows == n.rows && m.cols == n.cols && m.data.isEqv n.data eq

end OwnedMatrix

end AbiConformance
