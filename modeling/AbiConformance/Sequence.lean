import AbiConformance.Ieee.Binary64

namespace AbiConformance

def stepCount : Nat := 10

def stepAt (lower step : Binary64) (i : Nat) : Binary64 := lower + Binary64.ofInt i * step

def fixedSteps (lower step : Binary64) : Vector Binary64 stepCount :=
  Vector.ofFn fun i => stepAt lower step i

structure Ramp where
  next : Nat
  stop : Nat

namespace Ramp

def ofCount (count : Nat) : Ramp := ⟨0, count⟩

def left (r : Ramp) : Nat := r.stop - r.next

def step (r : Ramp) : Option (Binary64 × Ramp) :=
  if r.next < r.stop then some (Binary64.ofInt r.next, { r with next := r.next + 1 }) else none

def take : Nat → Ramp → List Binary64 × Ramp
  | 0, r => ([], r)
  | n + 1, r =>
    match r.step with
    | none => ([], r)
    | some (x, rest) =>
      let (xs, last) := take n rest
      (x :: xs, last)

def items (r : Ramp) : List Binary64 := (r.take r.left).1

theorem length_take {n : Nat} {r : Ramp} (h : n ≤ r.left) : (r.take n).1.length = n := by
  induction n generalizing r with
  | zero => rfl
  | succ n ih =>
    rw [left] at h
    have hlt : r.next < r.stop := by omega
    have hrest : n ≤ left { r with next := r.next + 1 } := by
      simp only [left]
      omega
    simp only [take, step, hlt, if_true, List.length_cons, ih hrest]

theorem length_items (r : Ramp) : r.items.length = r.left := length_take (Nat.le_refl _)

end Ramp

end AbiConformance
