namespace AbiConformance

inductive Ownership where
  | copied
  | borrowed
  | transferred
  deriving DecidableEq

namespace Ownership

def all : List Ownership := [copied, borrowed, transferred]

def code : Ownership → Int32
  | copied => 0
  | borrowed => 1
  | transferred => 2

def name : Ownership → String
  | copied => "Copied"
  | borrowed => "Borrowed"
  | transferred => "Transferred"

end Ownership

structure Extent where
  size : Nat
  align : Nat
  deriving DecidableEq

structure Member where
  name : String
  extent : Extent
  ownership : Ownership

structure Field where
  name : String
  offset : Nat
  size : Nat
  ownership : Ownership
  deriving DecidableEq

namespace Layout

def roundUp (n align : Nat) : Nat := (n + align - 1) / align * align

def fieldsFrom : Nat → List Member → List Field
  | _, [] => []
  | cursor, member :: rest =>
    let offset := roundUp cursor member.extent.align
    ⟨member.name, offset, member.extent.size, member.ownership⟩ ::
      fieldsFrom (offset + member.extent.size) rest

def endFrom : Nat → List Member → Nat
  | cursor, [] => cursor
  | cursor, member :: rest =>
    endFrom (roundUp cursor member.extent.align + member.extent.size) rest

def extent (members : List Member) : Extent :=
  let align := members.foldl (fun align member => max align member.extent.align) 1
  ⟨roundUp (endFrom 0 members) align, align⟩

def word (bytes : Nat) : Extent := ⟨bytes, bytes⟩

def array (count : Nat) (element : Extent) : Extent := ⟨count * element.size, element.align⟩

end Layout

inductive RecordKind where
  | numeric
  | counter
  | linked
  | composite
  | steps
  deriving DecidableEq

namespace RecordKind

open Layout Ownership

def all : List RecordKind := [numeric, counter, linked, composite, steps]

def code : RecordKind → Int32
  | numeric => 0
  | counter => 1
  | linked => 2
  | composite => 3
  | steps => 4

def ofCode? (n : Int32) : Option RecordKind := all.find? (·.code == n)

def name : RecordKind → String
  | numeric => "PassingData"
  | counter => "SimpleStruct"
  | linked => "ComplexPassing"
  | composite => "ComplexStruct"
  | steps => "FixedArray"

def numericMembers : List Member :=
  [⟨"s_int", word 4, copied⟩, ⟨"s_long", word 8, copied⟩, ⟨"s_float", word 4, copied⟩,
    ⟨"s_double", word 8, copied⟩]

def counterMembers : List Member :=
  [⟨"a", word 4, copied⟩, ⟨"b", word 8, copied⟩, ⟨"c", word 8, copied⟩,
    ⟨"d", word 8, transferred⟩]

def members : RecordKind → List Member
  | numeric => numericMembers
  | counter => counterMembers
  | linked =>
    [⟨"s_ID", word 4, copied⟩, ⟨"s_passingData", extent numericMembers, copied⟩,
      ⟨"s_ptrPassingData", word 8, borrowed⟩, ⟨"s_string", word 8, borrowed⟩]
  | composite =>
    [⟨"a", word 8, borrowed⟩, ⟨"b", array 3 (extent counterMembers), copied⟩,
      ⟨"message", word 8, borrowed⟩]
  | steps => [⟨"values", array 10 (word 8), copied⟩]

def fields (k : RecordKind) : List Field := fieldsFrom 0 k.members

def size (k : RecordKind) : Nat := (extent k.members).size

theorem ofCode?_code (k : RecordKind) : ofCode? k.code = some k := by
  cases k <;> decide

end RecordKind

namespace Layout

def sizeOfCode (kind : Int32) : Nat := ((RecordKind.ofCode? kind).map RecordKind.size).getD 0

def field? (kind : Int32) (index : UInt32) : Option Field :=
  (RecordKind.ofCode? kind).bind (·.fields[index.toNat]?)

end Layout

end AbiConformance
