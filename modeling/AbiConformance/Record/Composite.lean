import AbiConformance.Record.Counter

namespace AbiConformance

structure CompositeRecord where
  first : Pointer
  parts : Vector CounterRecord 3
  message : Pointer
  deriving DecidableEq

namespace CompositeRecord

def size : Nat := 112

def load (m : Memory) (base : Nat) : CompositeRecord where
  first := m.load Pointer base
  parts := #v[CounterRecord.load m (base + 8), CounterRecord.load m (base + 40),
    CounterRecord.load m (base + 72)]
  message := m.load Pointer (base + 104)

def store (m : Memory) (base : Nat) (r : CompositeRecord) : Memory :=
  let m := m.store base r.first
  let m := CounterRecord.store m (base + 8) r.parts[0]
  let m := CounterRecord.store m (base + 40) r.parts[1]
  let m := CounterRecord.store m (base + 72) r.parts[2]
  m.store (base + 104) r.message

def build (m : Memory) (first second message : Pointer) : CompositeRecord where
  first := first
  parts := #v[CounterRecord.loadOrZero m second, CounterRecord.loadOrZero m first,
    CounterRecord.zero]
  message := message

end CompositeRecord

end AbiConformance
