import AbiConformance.ElementType
import AbiConformance.Heap.Arena
import AbiConformance.Memory.CString
import AbiConformance.Memory.Typed
import AbiConformance.Record.Layout
import AbiConformance.Sequence

namespace AbiConformance

namespace Block

def header : Nat := 16

def maxLayout : Nat := 2 ^ 63 - 1

def layout? (payload : Nat) : Option Nat :=
  if payload + header < addressSpace ∧ Layout.roundUp (payload + header) header ≤ maxLayout then
    some (payload + header)
  else none

def allocate (A : Allocator) (s : Arena) (payload : Nat) : Pointer × Arena :=
  match layout? payload with
  | none => (.null, s)
  | some size =>
    match s.request A size header with
    | (none, s') => (.null, s')
    | (some base, s') =>
      (.ofAddr (base + header),
        { s' with memory := s'.memory.store base (UInt64.ofNat payload) }.emit
          (.blockAllocated payload))

def base (p : Pointer) : Nat := p.addr - header

def payload (m : Memory) (p : Pointer) : UInt64 := m.load UInt64 (base p)

def payloadOrZero (m : Memory) (p : Pointer) : UInt64 := if p.isNull then 0 else payload m p

def fill (s : Arena) (p : Pointer) (bytes : List UInt8) : Arena :=
  if p.isNull then s else { s with memory := s.memory.write p.addr bytes }

def allocateText (A : Allocator) (s : Arena) (source : Pointer) : Pointer × Arena :=
  let text := s.memory.stringAt source
  let (p, s') := allocate A s text.length
  (p, fill s' p text)

def allocateDoubles (A : Allocator) (s : Arena) (count : Int32) : Pointer × Arena :=
  let n := elementCount count
  if n * 8 < addressSpace then
    let (p, s') := allocate A s (n * 8)
    (p, fill s' p ((Ramp.ofCount n).items.flatMap Scalar.encode))
  else (.null, s)

def release (s : Arena) (p : Pointer) : Arena :=
  if p.isNull then s
  else
    let bytes := (payload s.memory p).toNat
    match layout? bytes with
    | none => s
    | some size => (s.emit (.blockReleased bytes)).free (base p) size

end Block

end AbiConformance
