import AbiConformance.Power

namespace AbiConformance

abbrev Thread := Nat

inductive Request (κ : Type) where
  | allocate (block : κ) (size : Nat)
  | allocateZeroed (block : κ) (size : Nat)
  | resize (block : κ) (old new : Nat)
  | free (block : κ) (size : Nat)

structure Transaction (κ : Type) where
  thread : Thread
  request : Request κ
  granted : Bool

structure Ledger (κ : Type) where
  blocks : List (κ × Nat)
  counter : Thread → Int64

namespace Ledger

variable {κ : Type} [DecidableEq κ]

def empty : Ledger κ := ⟨[], fun _ => 0⟩

def size? (l : Ledger κ) (block : κ) : Option Nat := l.blocks.lookup block

def signedSize (n : Nat) : Int64 := Int64.ofNat (min n (2 ^ 63 - 1))

def adjust (l : Ledger κ) (t : Thread) (delta : Int64) : Ledger κ :=
  let old := l.counter t
  { l with counter := fun u => if u = t then old + delta else l.counter u }

def insert (l : Ledger κ) (block : κ) (size : Nat) : Ledger κ :=
  { l with blocks := (block, size) :: l.blocks }

def erase (l : Ledger κ) (block : κ) : Ledger κ :=
  { l with blocks := l.blocks.filter (·.1 ≠ block) }

def grant (l : Ledger κ) (t : Thread) : Request κ → Ledger κ
  | .allocate block size => (l.insert block size).adjust t (signedSize size)
  | .allocateZeroed block size => (l.insert block size).adjust t (signedSize size)
  | .resize block old new =>
    ((l.erase block).insert block new).adjust t (signedSize new - signedSize old)
  | .free block size => (l.erase block).adjust t (-signedSize size)

def perform (l : Ledger κ) (t : Thread) (r : Request κ) (granted : Bool) : Ledger κ :=
  match r with
  | .free .. => l.grant t r
  | _ => if granted then l.grant t r else l

def serve (l : Ledger κ) (x : Transaction κ) : Ledger κ := l.perform x.thread x.request x.granted

def serveAll (l : Ledger κ) (xs : List (Transaction κ)) : Ledger κ := xs.foldl serve l

omit [DecidableEq κ] in
theorem counter_adjust (l : Ledger κ) (t u : Thread) (delta : Int64) :
    (l.adjust t delta).counter u = if u = t then l.counter t + delta else l.counter u := rfl

end Ledger

end AbiConformance
