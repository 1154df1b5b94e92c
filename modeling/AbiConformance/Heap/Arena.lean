import AbiConformance.Heap.Event
import AbiConformance.Heap.Ledger
import AbiConformance.Memory.Basic

namespace AbiConformance

/-- The answer to a numbered request for `size` bytes at a multiple of `align`. -/
abbrev Allocator := (request size align : Nat) → Option Nat

inductive Outcome (α : Type) where
  | returned (result : α)
  | aborted

structure Arena where
  memory : Memory
  ledger : Ledger Nat
  log : List Event
  requests : Nat

namespace Arena

def thread : Thread := 0

def ofMemory (m : Memory) : Arena := ⟨m, .empty, [], 0⟩

def outstanding (s : Arena) : Int64 := s.ledger.counter thread

def emit (s : Arena) (e : Event) : Arena := { s with log := s.log ++ [e] }

def request (A : Allocator) (s : Arena) (size align : Nat) : Option Nat × Arena :=
  let next := { s with requests := s.requests + 1 }
  match A s.requests size align with
  | none => (none, next)
  | some a => (some a, { next with ledger := s.ledger.grant thread (.allocate a size) })

def free (s : Arena) (a size : Nat) : Arena :=
  { s with ledger := s.ledger.grant thread (.free a size) }

def scratch (A : Allocator) (s : Arena) (size align : Nat) : Outcome Arena :=
  if size = 0 then .returned s
  else
    match s.request A size align with
    | (none, _) => .aborted
    | (some a, s') => .returned (s'.free a size)

end Arena

end AbiConformance
