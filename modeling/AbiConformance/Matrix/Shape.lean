import AbiConformance.Memory.Pointer

namespace AbiConformance

structure Shape where
  rows : Nat
  cols : Nat
  deriving DecidableEq

inductive LayoutError where
  | shapeMismatch (shape : Shape) (found : Nat)
  | raggedRow (row expected found : Nat)
  | shapeOverflow (shape : Shape)
  deriving DecidableEq

def saturate (n : Nat) : Nat := min n (addressSpace - 1)

/-- What plain arithmetic on words does with a result that does not fit one: end the run, or go on
with its low word. -/
inductive Overflow where
  | checked
  | wrapping
  deriving DecidableEq

namespace Overflow

def fit : Overflow → Nat → Option Nat
  | checked, n => if n < addressSpace then some n else none
  | wrapping, n => some (n % addressSpace)

theorem fit_of_lt {n : Nat} (h : n < addressSpace) : (mode : Overflow) → mode.fit n = some n
  | checked => if_pos h
  | wrapping => congrArg some (Nat.mod_eq_of_lt h)

end Overflow

namespace Shape

def isEmpty (s : Shape) : Bool := s.rows == 0 || s.cols == 0

def len (s : Shape) : Except LayoutError Nat :=
  if s.rows * s.cols < addressSpace then .ok (s.rows * s.cols) else .error (.shapeOverflow s)

theorem len_eq_ok {s : Shape} {n : Nat} :
    s.len = .ok n ↔ s.rows * s.cols = n ∧ n < addressSpace := by
  simp only [len]
  split
  · simp only [Except.ok.injEq]
    omega
  · simp only [reduceCtorEq, false_iff]
    omega

theorem len_eq_error {s : Shape} {e : LayoutError} :
    s.len = .error e ↔ addressSpace ≤ s.rows * s.cols ∧ e = .shapeOverflow s := by
  simp only [len]
  split
  · simp only [reduceCtorEq, false_iff]
    omega
  · simp only [Except.error.injEq]
    constructor
    · intro h
      exact ⟨by omega, h.symm⟩
    · intro h
      exact h.2.symm

theorem isEmpty_iff {s : Shape} : s.isEmpty = true ↔ s.rows * s.cols = 0 := by
  simp only [isEmpty, Bool.or_eq_true, beq_iff_eq, Nat.mul_eq_zero]

end Shape

namespace LayoutError

def message : LayoutError → String
  | shapeMismatch s found =>
    s!"{s.rows}x{s.cols} matrix needs {saturate (s.rows * s.cols)} elements, got {found}"
  | raggedRow row expected found => s!"row {row} holds {found} elements, expected {expected}"
  | shapeOverflow s => s!"{s.rows}x{s.cols} matrix overflows the address space"

end LayoutError

end AbiConformance
