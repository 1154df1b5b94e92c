import AbiConformance.Accumulation
import AbiConformance.Memory.Typed

namespace AbiConformance

structure NumericRecord where
  int : Int32
  long : Int64
  float : Binary32
  double : Binary64
  deriving DecidableEq

namespace NumericRecord

def size : Nat := 32

def load (m : Memory) (a : Nat) : NumericRecord where
  int := m.load Int32 a
  long := m.load Int64 (a + 8)
  float := m.load Binary32 (a + 16)
  double := m.load Binary64 (a + 24)

def store (m : Memory) (a : Nat) (r : NumericRecord) : Memory :=
  (((m.store a r.int).store (a + 8) r.long).store (a + 16) r.float).store (a + 24) r.double

def total (r : NumericRecord) : Binary64 :=
  sum [.ofInt r.long.toInt, r.float.toBinary64, .ofInt r.int.toInt, r.double]

def equal (r s : NumericRecord) : Bool :=
  r.int == s.int && r.long == s.long && r.float.equal s.float && r.double.equal s.double

def canonical (r : NumericRecord) : NumericRecord :=
  { r with float := r.float.canonical, double := r.double.canonical }

end NumericRecord

end AbiConformance
