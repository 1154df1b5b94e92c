import AbiConformance.Heap.Arena
import AbiConformance.Record.Counter

namespace AbiConformance

namespace CounterRecord

def target : Int32 := 4

def targetSize : Nat := 4

def allocate (A : Allocator) (s : Arena) : Outcome (Pointer × Arena) :=
  match s.request A targetSize 4 with
  | (none, _) => .aborted
  | (some d, s') =>
    match s'.request A size 8 with
    | (none, _) => .aborted
    | (some r, s'') =>
      let m := s''.memory.store d target
      let m := store m r ⟨1, 2, 3, .ofAddr d⟩
      .returned (.ofAddr r, { s'' with memory := m }.emit .structAllocated)

def free (s : Arena) (p : Pointer) : Arena :=
  if p.isNull then s
  else
    let d := (load s.memory p.addr).d
    let s' := if d.isNull then s else s.free d.addr targetSize
    (s'.emit .structFreed).free p.addr size

end CounterRecord

end AbiConformance
