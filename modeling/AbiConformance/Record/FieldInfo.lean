import AbiConformance.Memory.Typed
import AbiConformance.Record.Layout

namespace AbiConformance

structure FieldInfo where
  name : Pointer
  offset : UInt64
  size : UInt64
  ownership : Int32
  deriving DecidableEq

namespace FieldInfo

def width : Nat := 32

def load (m : Memory) (base : Nat) : FieldInfo where
  name := m.load Pointer base
  offset := m.load UInt64 (base + 8)
  size := m.load UInt64 (base + 16)
  ownership := m.load Int32 (base + 24)

def store (m : Memory) (base : Nat) (i : FieldInfo) : Memory :=
  (((m.store base i.name).store (base + 8) i.offset).store (base + 16) i.size).store (base + 24)
    i.ownership

def nameSlot : Nat := 32

def namesBase : Nat := 2 ^ 20

def names : List String := (RecordKind.all.flatMap (·.fields.map (·.name))).eraseDups

def nameAt (name : String) : Pointer := .ofAddr (namesBase + nameSlot * names.idxOf name)

def storeName (m : Memory) (name : String) : Memory :=
  m.write (nameAt name).addr (name.toUTF8.toList ++ [0])

def constants : Memory := names.foldl storeName .empty

def ofField (f : Field) : FieldInfo :=
  ⟨nameAt f.name, .ofNat f.offset, .ofNat f.size, f.ownership.code⟩

def describe (m : Memory) (kind : Int32) (index : UInt32) (out : Pointer) : UInt8 × Memory :=
  match Layout.field? kind index with
  | none => (0, m)
  | some f => if out.isNull then (0, m) else (1, store m out.addr (ofField f))

end FieldInfo

end AbiConformance
