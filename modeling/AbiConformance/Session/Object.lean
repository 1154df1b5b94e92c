import AbiConformance.Call.Basic

namespace AbiConformance

inductive ObjectType where
  | elements (e : ElementType)
  | bytes
  | pointers
  | numeric
  | counter
  | linked
  | composite
  deriving DecidableEq

inductive Content where
  | elements (e : ElementType) (xs : List e.Carrier)
  | bytes (bs : List UInt8)
  | pointers (ps : List Pointer)
  | numeric (r : NumericRecord)
  | counter (r : CounterRecord)
  | linked (r : LinkedRecord)
  | composite (r : CompositeRecord)
  deriving DecidableEq

namespace Content

def type : Content → ObjectType
  | elements e _ => .elements e
  | bytes _ => .bytes
  | pointers _ => .pointers
  | numeric _ => .numeric
  | counter _ => .counter
  | linked _ => .linked
  | composite _ => .composite

def size : Content → Nat
  | elements e xs => xs.length * Scalar.width e.Carrier
  | bytes bs => bs.length
  | pointers ps => ps.length * Scalar.width Pointer
  | numeric _ => NumericRecord.size
  | counter _ => CounterRecord.size
  | linked _ => LinkedRecord.size
  | composite _ => CompositeRecord.size

def store (m : Memory) (base : Nat) : Content → Memory
  | elements _ xs => m.storeArray base xs
  | bytes bs => m.write base bs
  | pointers ps => m.storeArray base ps
  | numeric r => NumericRecord.store m base r
  | counter r => CounterRecord.store m base r
  | linked r => LinkedRecord.store m base r
  | composite r => CompositeRecord.store m base r

def canonical : Content → Content
  | elements e xs => .elements e (xs.map e.canonical)
  | numeric r => .numeric r.canonical
  | linked r => .linked r.canonical
  | content => content

end Content

structure Object where
  name : String
  type : ObjectType
  base : Nat
  size : Nat
  block : Option Nat

namespace Object

def content (m : Memory) (o : Object) : Content :=
  match o.type with
  | .elements e => .elements e (m.loadArray e.Carrier o.base (o.size / Scalar.width e.Carrier))
  | .bytes => .bytes (m.read o.base o.size)
  | .pointers => .pointers (m.loadArray Pointer o.base (o.size / Scalar.width Pointer))
  | .numeric => .numeric (NumericRecord.load m o.base)
  | .counter => .counter (CounterRecord.load m o.base)
  | .linked => .linked (LinkedRecord.load m o.base)
  | .composite => .composite (CompositeRecord.load m o.base)

def isLive (s : Arena) (o : Object) : Bool :=
  match o.block with
  | none => true
  | some b => (s.ledger.size? b).isSome

def view (s : Arena) (o : Object) : Option Content :=
  if o.isLive s then some (o.content s.memory).canonical else none

def covers (o : Object) (a : Nat) : Bool := o.base ≤ a && a ≤ o.base + o.size

end Object

end AbiConformance
