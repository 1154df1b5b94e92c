import AbiConformance.Heap.Block
import AbiConformance.Heap.Counter
import AbiConformance.Matrix.InMemory
import AbiConformance.Record.Composite
import AbiConformance.Record.FieldInfo
import AbiConformance.Record.Linked

namespace AbiConformance

inductive Value where
  | nothing
  | int8 (x : Int8)
  | int16 (x : Int16)
  | int32 (x : Int32)
  | int64 (x : Int64)
  | binary32 (x : Binary32)
  | binary64 (x : Binary64)
  | flag (x : UInt8)
  | size (n : UInt64)
  | pointer (p : Pointer)
  | counter (r : CounterRecord)
  | composite (r : CompositeRecord)
  | steps (xs : Vector Binary64 stepCount)
  deriving DecidableEq

namespace ElementType

def value : (e : ElementType) → e.Carrier → Value
  | int8, x => .int8 x
  | int16, x => .int16 x
  | int32, x => .int32 x
  | int64, x => .int64 x
  | binary32, x => .binary32 x
  | binary64, x => .binary64 x

def wideValue : (e : ElementType) → e.Wide → Value
  | int8, x => .int32 x
  | int16, x => .int32 x
  | int32, x => .int32 x
  | int64, x => .int64 x
  | binary32, x => .binary32 x
  | binary64, x => .binary64 x

end ElementType

inductive Call where
  | add (e : ElementType) (x y : e.Carrier)
  | addMixed (x : Int32) (y : Int64)
  | addLong (x : Int64) (y : Int32)
  | sumArray (e : ElementType) (data : Pointer) (count : e.Count)
  | sumArrayPair (left right : Pointer) (count : Int32)
  | sumMatrix (e : ElementType) (rows cols : Int32) (data : Pointer)
  | sumMatrixRows (e : ElementType) (rows cols : Int32) (table : Pointer)
  | assign (e : ElementType) (out : Pointer) (x : e.Carrier)
  | assignConverted (out : Pointer) (x : Int32)
  | incrementArray (data : Pointer) (count : Int32)
  | textLength (text : Pointer)
  | blockSize (block : Pointer)
  | recordSize (kind : Int32)
  | describeField (kind : Int32) (index : UInt32) (out : Pointer)
  | total (record : Pointer)
  | incrementCopy (record : CounterRecord) (inc : Int32)
  | incrementInPlace (record : Pointer) (inc : Int32)
  | fixedSteps (lower step : Binary64)
  | buildComposite (first second message : Pointer)
  | mutateLinked (record : Pointer)

inductive HeapCall where
  | allocateText (source : Pointer)
  | allocateDoubles (count : Int32)
  | allocateCounter
  | release (block : Pointer)
  | freeCounter (record : Pointer)

def clampLength (n : Nat) : Int32 := Int32.ofNat (min n (2 ^ 31 - 1))

namespace Memory

def incrementArray (m : Memory) (data : Pointer) (count : Int32) : Memory :=
  m.storeArray data.addr ((m.slice Binary64 data (elementCount count)).map (· + Binary64.one))

end Memory

namespace Call

def run (m : Memory) : Call → Value × Memory
  | add e x y => (e.value (Accumulator.add x y), m)
  | addMixed x y => (.binary64 (.ofInt (x.toInt64 + y).toInt), m)
  | addLong x y => (.int64 (x + y.toInt64), m)
  | sumArray e data count => (e.value (sum (m.slice e.Carrier data (elementCount count))), m)
  | sumArrayPair left right count =>
    let n := elementCount count
    (.binary64 (sumPairs (m.slice Binary64 left n) (m.slice Binary64 right n)), m)
  | sumMatrix e rows cols data =>
    (e.wideValue (m.sumContiguous e.Carrier (Memory.shapeOf rows cols) data), m)
  | sumMatrixRows e rows cols table =>
    (e.wideValue (m.sumIndirect e.Carrier (Memory.shapeOf rows cols) table), m)
  | assign _ out x => (.nothing, m.store out.addr x)
  | assignConverted out x => (.nothing, m.store out.addr (Binary64.ofInt x.toInt))
  | incrementArray data count => (.nothing, m.incrementArray data count)
  | textLength text => (.int32 (clampLength (m.stringAt text).length), m)
  | blockSize block => (.size (Block.payloadOrZero m block), m)
  | recordSize kind => (.size (.ofNat (Layout.sizeOfCode kind)), m)
  | describeField kind index out => (FieldInfo.describe m kind index out).map .flag id
  | total record => (.binary64 (NumericRecord.load m record.addr).total, m)
  | incrementCopy record inc => (record.incrementCopy m inc).map .counter id
  | incrementInPlace record inc => (.nothing, CounterRecord.incrementInPlace m record.addr inc)
  | fixedSteps lower step => (.steps (AbiConformance.fixedSteps lower step), m)
  | buildComposite first second message => (.composite (.build m first second message), m)
  | mutateLinked record => (LinkedRecord.mutate m record.addr).map .binary64 id

def scratchBytes (m : Memory) : Call → Nat
  | sumMatrixRows _ rows cols table => 16 * (m.rowPointers (Memory.shapeOf rows cols) table).length
  | _ => 0

def runIn (A : Allocator) (s : Arena) (c : Call) : Outcome (Value × Arena) :=
  let (value, m) := c.run s.memory
  match s.scratch A (c.scratchBytes s.memory) 8 with
  | .aborted => .aborted
  | .returned s' => .returned (value, { s' with memory := m })

end Call

namespace HeapCall

def runIn (A : Allocator) (s : Arena) : HeapCall → Outcome (Value × Arena)
  | allocateText source =>
    let (p, s') := Block.allocateText A s source
    .returned (.pointer p, s')
  | allocateDoubles count =>
    let (p, s') := Block.allocateDoubles A s count
    .returned (.pointer p, s')
  | allocateCounter =>
    match CounterRecord.allocate A s with
    | .aborted => .aborted
    | .returned (p, s') => .returned (.pointer p, s')
  | release block => .returned (.nothing, Block.release s block)
  | freeCounter record => .returned (.nothing, CounterRecord.free s record)

end HeapCall

end AbiConformance
