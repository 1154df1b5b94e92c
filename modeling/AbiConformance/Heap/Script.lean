import AbiConformance.Heap.Ledger

namespace AbiConformance

inductive AllocatorCall where
  | allocate (block : String) (size : Nat)
  | allocateZeroed (block : String) (size : Nat)
  | resize (block : String) (size : Nat)
  | free (block : String)

structure AllocatorStep where
  call : AllocatorCall
  ownThread : Bool

structure AllocatorReport where
  delta : Int64
  total : Int64
  granted : Bool

namespace AllocatorCall

def request? (l : Ledger String) : AllocatorCall → Option (Request String)
  | allocate block size => some (.allocate block size)
  | allocateZeroed block size => some (.allocateZeroed block size)
  | resize block size => (l.size? block).map fun old => .resize block old size
  | free block => (l.size? block).map fun old => .free block old

def granted (grants : Nat → Bool) : AllocatorCall → Bool
  | allocate _ size => grants size
  | allocateZeroed _ size => grants size
  | resize _ size => grants size
  | free _ => true

end AllocatorCall

namespace AllocatorStep

def transaction? (grants : Nat → Bool) (fresh : Thread) (l : Ledger String)
    (step : AllocatorStep) : Option (Transaction String) :=
  (step.call.request? l).map fun request =>
    ⟨if step.ownThread then fresh else 0, request, step.call.granted grants⟩

/-- The allocator underneath answers the call on thread `t` by its size, as `grants t` says. -/
def transactionsFrom (grants : Thread → Nat → Bool) (fresh : Thread) (l : Ledger String) :
    List AllocatorStep → Option (List (Transaction String))
  | [] => some []
  | step :: rest => do
    let x ← step.transaction? (grants fresh) fresh l
    return x :: (← transactionsFrom grants (fresh + 1) (l.serve x) rest)

def transactions (grants : Thread → Nat → Bool) (steps : List AllocatorStep) :
    Option (List (Transaction String)) :=
  transactionsFrom grants 1 .empty steps

end AllocatorStep

namespace Ledger

def report (l : Ledger String) (x : Transaction String) : AllocatorReport where
  delta := (l.serve x).counter x.thread - l.counter x.thread
  total := (l.serve x).counter 0
  granted := x.granted

def reports (l : Ledger String) : List (Transaction String) → List AllocatorReport
  | [] => []
  | x :: xs => l.report x :: (l.serve x).reports xs

end Ledger

def AllocatorStep.run (grants : Thread → Nat → Bool) (steps : List AllocatorStep) :
    Option (List AllocatorReport) :=
  (transactions grants steps).map Ledger.empty.reports

end AbiConformance
