import AbiConformance.Memory.CString
import AbiConformance.Record.Numeric
import AbiConformance.Text

namespace AbiConformance

structure LinkedRecord where
  id : Int32
  data : NumericRecord
  link : Pointer
  text : Pointer
  deriving DecidableEq

namespace LinkedRecord

def size : Nat := 56

def load (m : Memory) (base : Nat) : LinkedRecord where
  id := m.load Int32 base
  data := NumericRecord.load m (base + 8)
  link := m.load Pointer (base + 40)
  text := m.load Pointer (base + 48)

def store (m : Memory) (base : Nat) (r : LinkedRecord) : Memory :=
  ((NumericRecord.store (m.store base r.id) (base + 8) r.data).store (base + 40) r.link).store
    (base + 48) r.text

def total (m : Memory) (r : LinkedRecord) : Binary64 :=
  if r.link.isNull then r.data.total
  else r.data.total + (NumericRecord.load m r.link.addr).total

def shiftText (m : Memory) (text : Pointer) : Memory :=
  m.write text.addr (shiftToUpper (m.stringAt text))

def raise (m : Memory) (a : Nat) (inc : Int32) : Memory := m.modify a fun x : Int32 => x + inc

def mutate (m : Memory) (base : Nat) : Binary64 × Memory :=
  let r := load m base
  let m' := raise (raise (shiftText m r.text) base 10) (base + 8) 10
  (total m r, if r.link.isNull then m' else raise m' r.link.addr 20)

def canonical (r : LinkedRecord) : LinkedRecord := { r with data := r.data.canonical }

end LinkedRecord

end AbiConformance
