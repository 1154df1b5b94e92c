import AbiConformance.Session.Object

namespace AbiConformance

inductive EntryCall where
  | plain (c : Call)
  | heap (c : HeapCall)

namespace EntryCall

def run (A : Allocator) (s : Arena) : EntryCall → Outcome (Value × Arena)
  | plain c => c.runIn A s
  | heap c => c.runIn A s

end EntryCall

namespace Value

def store (m : Memory) (p : Pointer) : Value → Memory
  | counter r => CounterRecord.store m p.addr r
  | composite r => CompositeRecord.store m p.addr r
  | steps xs => m.storeArray p.addr xs.toList
  | _ => m

end Value

structure Session where
  arena : Arena
  objects : List Object
  created : Nat

structure StepReport where
  value : Value
  changed : List (String × Option Content)
  live : Int64
  log : List Event

namespace Session

def stride : Nat := 2 ^ 40

def objectBase (i : Nat) : Nat := stride * (i + 1)

def heapBase : Nat := 2 ^ 62

def allocator : Allocator := fun request size _ =>
  if size < stride then some (heapBase + stride * request) else none

def addObject (s : Session) (name : String) (content : Content) : Session :=
  let base := objectBase s.objects.length
  { s with
    arena := { s.arena with memory := content.store s.arena.memory base }
    objects := s.objects ++ [⟨name, content.type, base, content.size, none⟩] }

def start (contents : List (String × Content)) : Session :=
  contents.foldl (fun s c => s.addObject c.1 c.2) ⟨.ofMemory FieldInfo.constants, [], 0⟩

def find? (s : Session) (name : String) : Option Object := s.objects.find? (·.name == name)

def address? (s : Session) (name : String) (offset : Nat) : Option Pointer :=
  (s.find? name).map fun o => .ofAddr (o.base + offset)

def locate (s : Session) (p : Pointer) : Option (String × Nat) :=
  (s.objects.find? (·.covers p.addr)).map fun o => (o.name, p.addr - o.base)

def createdObjects (n : Nat) (m : Memory) (p : Pointer) : HeapCall → List Object
  | .allocateText _ =>
    [⟨s!"h{n}", .bytes, p.addr, (Block.payload m p).toNat, some (Block.base p)⟩]
  | .allocateDoubles _ =>
    [⟨s!"h{n}", .elements .binary64, p.addr, (Block.payload m p).toNat, some (Block.base p)⟩]
  | .allocateCounter =>
    let d := (CounterRecord.load m p.addr).d
    [⟨s!"h{n}", .counter, p.addr, CounterRecord.size, some p.addr⟩,
      ⟨s!"h{n}.d", .elements .int32, d.addr, CounterRecord.targetSize, some d.addr⟩]
  | _ => []

def newObjects (n : Nat) (m : Memory) (value : Value) : EntryCall → List Object
  | .plain _ => []
  | .heap c =>
    match value with
    | .pointer p => if p.isNull then [] else createdObjects n m p c
    | _ => []

def changes (before after : Session) : List (String × Option Content) :=
  after.objects.zipIdx.filterMap fun (o, i) =>
    let old := (before.objects[i]?).bind (·.view before.arena)
    let new := o.view after.arena
    if old = new then none else some (o.name, new)

def report (before after : Session) (value : Value) : StepReport where
  value := value
  changed := changes before after
  live := after.arena.outstanding - before.arena.outstanding
  log := after.arena.log.drop before.arena.log.length

def overwrite (s : Session) (name : String) (content : Content) : Option (StepReport × Session) :=
  (s.find? name).map fun o =>
    let after := { s with
      arena := { s.arena with memory := content.store s.arena.memory o.base } }
    (report s after .nothing, after)

def call (s : Session) (c : EntryCall) (into : Option Pointer) : Outcome (StepReport × Session) :=
  match c.run allocator s.arena with
  | .aborted => .aborted
  | .returned (value, arena) =>
    let made := newObjects s.created arena.memory value c
    let memory := match into with
      | none => arena.memory
      | some p => value.store arena.memory p
    let after : Session :=
      { arena := { arena with memory := memory }
        objects := s.objects ++ made
        created := s.created + min made.length 1 }
    .returned (report s after value, after)

end Session

end AbiConformance
