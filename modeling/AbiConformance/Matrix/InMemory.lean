import AbiConformance.ElementType
import AbiConformance.Matrix.View
import AbiConformance.Memory.Typed

namespace AbiConformance.Memory

variable {α β : Type} [Scalar α] [Accumulator β] [Widening α β]

def shapeOf (rows cols : Int32) : Shape := ⟨elementCount rows, elementCount cols⟩

def sumContiguous (α : Type) [Scalar α] [Widening α β] (m : Memory) (s : Shape) (data : Pointer) :
    β :=
  match s.len with
  | .error _ => Accumulator.zero
  | .ok n =>
    match RowMajor.ofArray s (m.slice α data n).toArray with
    | .error _ => Accumulator.zero
    | .ok view => sumMatrix view

def rowPointers (m : Memory) (s : Shape) (table : Pointer) : List Pointer :=
  if s.isEmpty then [] else m.slice Pointer table s.rows

def sumIndirect (α : Type) [Scalar α] [Widening α β] (m : Memory) (s : Shape) (table : Pointer) :
    β :=
  if s.isEmpty then Accumulator.zero
  else
    match RowSlices.ofRows s.cols ((m.rowPointers s table).map fun row => m.slice α row s.cols) with
    | .error _ => Accumulator.zero
    | .ok view => sumMatrix view

end AbiConformance.Memory
