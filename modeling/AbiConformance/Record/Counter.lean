import AbiConformance.Memory.Typed

namespace AbiConformance

structure CounterRecord where
  a : Int32
  b : Int64
  c : Int64
  d : Pointer
  deriving DecidableEq

namespace CounterRecord

def size : Nat := 32

def zero : CounterRecord := ⟨0, 0, 0, .null⟩

def load (m : Memory) (base : Nat) : CounterRecord where
  a := m.load Int32 base
  b := m.load Int64 (base + 8)
  c := m.load Int64 (base + 16)
  d := m.load Pointer (base + 24)

def store (m : Memory) (base : Nat) (r : CounterRecord) : Memory :=
  (((m.store base r.a).store (base + 8) r.b).store (base + 16) r.c).store (base + 24) r.d

def loadOrZero (m : Memory) (p : Pointer) : CounterRecord :=
  if p.isNull then zero else load m p.addr

def incrementTarget (m : Memory) (d : Pointer) (inc : Int32) : Memory :=
  if d.isNull then m else m.modify d.addr fun x : Int32 => x + inc

def incrementCopy (m : Memory) (r : CounterRecord) (inc : Int32) : CounterRecord × Memory :=
  ({ r with a := r.a + inc, b := r.b + inc.toInt64, c := r.c + inc.toInt64 },
    incrementTarget m r.d inc)

def incrementCounters (m : Memory) (base : Nat) (inc : Int32) : Memory :=
  ((m.modify base fun x : Int32 => x + inc).modify (base + 8) fun x : Int64 => x + inc.toInt64).modify
    (base + 16) fun x : Int64 => x + inc.toInt64

def incrementInPlace (m : Memory) (base : Nat) (inc : Int32) : Memory :=
  let m' := incrementCounters m base inc
  incrementTarget m' (m'.load Pointer (base + 24)) inc

end CounterRecord

end AbiConformance
